import GraphQL.Execution.Basic
import GraphQL.Proofs.Coroutine.Breakdowns
import GraphQL.Proofs.Execution.Answer
import GraphQL.Proofs.Execution.Collection

/-!
# How executions break down

An execution breaks down only where a callback does, where the arguments of a field cannot be coerced,
or where selections nest too deep. Everything that an execution is put together from keeps to that, so
for a reason of some kind there is one question to each of these.

* `CallbacksAvoid` — neither callbacks nor the coercion of arguments break down for such a reason;
* `SelectAvoids` — nor do the selections of some nodes;
* `completeLayers_avoids`, `executeField_avoids` — then no value and no field does;
* `executeGroups_avoids`, `respond_avoids` — no object does, and no operation that has a root type. That
  there is no first selection under a key cannot be the reason, since there always is one.
-/

namespace GraphQL

open Coroutine

/-- An interface or union only resolves to object types of the schema. -/
theorem ExecutionContext.object?_of_concreteType {types : TypeSystem} {abstractType : String}
    {name : Option String} {object : ObjectType}
    (h : Completion.concreteType types abstractType name = .ok object) :
    ∃ name, types.object? name = some object := by
  cases name with
  | none => cases h
  | some name =>
    rw [Completion.concreteType] at h
    split at h
    next => cases h
    -- There is such an object type, and it has to be one of the possible ones.
    next found hfound =>
      split at h
      · obtain rfl := Except.ok.inj h
        exact ⟨name, hfound⟩
      · cases h

/-- Executing the selections of some nodes does not break down for some reasons. -/
def SelectAvoids (bad : Abort → Prop) (select : Select) (nodes : List Field) : Prop :=
  ∀ object value path, (select object (nodes.map FieldNode.selections) value path).Avoids bad

namespace ExecutionContext

/-- The callbacks of an execution and the coercion of arguments do not break down for some reasons. -/
structure CallbacksAvoid (bad : Abort → Prop) (ctx : ExecutionContext) : Prop where
  /-- The predicates of object types. -/
  predicates : ∀ name object isTypeOf, ctx.schema.types.object? name = some object →
    object.isTypeOf = some isTypeOf → ∀ value, ((isTypeOf value).toCoroutine Event.said).Avoids bad
  /-- The type resolvers of interfaces and unions. -/
  typeResolvers : ∀ name value info, info.types = ctx.schema.types →
    ((((ctx.schema.typeHooks name).resolveType.getD ctx.typeResolver) value info name).toCoroutine
      Event.said).Avoids bad
  /-- The resolvers of fields, behind their interceptors. -/
  resolvers : ∀ typeName fieldName atRoot resolverContext,
    (ctx.invoke (ctx.middleware.wrap typeName fieldName (ctx.baseResolver typeName fieldName atRoot))
      resolverContext).Avoids bad
  arguments : ∀ definition node,
    Coercion.coerceArguments ctx.schema.types definition node ctx.vars = .error .endless →
      ¬ bad .endless

variable {bad : Abort → Prop} {ctx : ExecutionContext} {select : Select}

/-! ### Completing values -/

theorem fail_avoids (info : ResolveInfo) (path : QueryPath) (message : String) (code : ErrorCode) :
    (info.fail path message code).Avoids bad := .finish _ _

theorem absorb_avoids (nonNull : Bool) (completed : Completed) :
    (Completed.absorb nonNull completed).Avoids bad := by
  fun_cases Completed.absorb nonNull completed <;> exact .finish _ _

theorem requireValue_avoids (nonNull : Bool) (info : ResolveInfo) (path : QueryPath)
    (completed : Completed) : (Completion.requireValue nonNull info path completed).Avoids bad := by
  fun_cases Completion.requireValue nonNull info path completed
  · exact fail_avoids _ _ _ _
  · exact .finish _ _
  · exact .finish _ _

theorem gather_avoids {α : Type} (results : List (Except GraphQLError α)) :
    (gather results).Avoids bad := by
  fun_cases gather results <;> exact .finish _ _

theorem gatherItems_avoids (nonNull : Bool) (results : List Completed) :
    (Completion.gatherItems nonNull results).Avoids bad := by
  fun_cases Completion.gatherItems nonNull results
  · exact avoids_map_iff.mpr (gather_avoids results)
  · exact .finish _ _

theorem completeScalar_avoids (scalar : ScalarType) (info : ResolveInfo) (path : QueryPath)
    (value : FieldValue) : (Completion.completeScalar scalar info path value).Avoids bad := by
  fun_cases Completion.completeScalar scalar info path value
  · exact .finish _ _
  · exact fail_avoids _ _ _ _

theorem completeEnum_avoids (type : EnumType) (info : ResolveInfo) (path : QueryPath)
    (value : FieldValue) : (Completion.completeEnum type info path value).Avoids bad := by
  fun_cases Completion.completeEnum type info path value
  · exact .finish _ _
  · exact fail_avoids _ _ _ _

section Values

variable {info : ResolveInfo} (hcallbacks : ctx.CallbacksAvoid bad)
  (hselect : SelectAvoids bad select info.fieldNodes)
include hcallbacks hselect

theorem completeObject_avoids {name : String} {object : ObjectType}
    (hobject : ctx.schema.types.object? name = some object) (path : QueryPath) (value : FieldValue) :
    (Completion.completeObject select object info path value).Avoids bad := by
  rw [Completion.completeObject]
  refine Avoids.bind ?_ fun accepted _ => ?_
  -- First the predicate of the type is asked, if it has one.
  · split
    next isTypeOf hpredicate => exact hcallbacks.predicates name object isTypeOf hobject hpredicate value
    next => exact .finish _ _
  · split
    · exact hselect object value path
    · exact fail_avoids _ _ _ _

theorem completeAbstract_avoids (abstractType : String) (hinfo : info.types = ctx.schema.types)
    (path : QueryPath) (value : FieldValue) :
    (Completion.completeAbstract ctx select abstractType info path value).Avoids bad := by
  rw [Completion.completeAbstract]
  refine Avoids.bind (hcallbacks.typeResolvers abstractType value info hinfo) fun name _ => ?_
  split
  next object hconcrete =>
    obtain ⟨name, hobject⟩ := object?_of_concreteType hconcrete
    exact completeObject_avoids hcallbacks hselect hobject path value
  next => exact fail_avoids _ _ _ _

theorem completeNamed_avoids (typeName : String) (hinfo : info.types = ctx.schema.types)
    (path : QueryPath) (value : FieldValue) :
    (Completion.completeNamed ctx select typeName info path value).Avoids bad := by
  fun_cases Completion.completeNamed ctx select typeName info path value with
  | case1 scalar _ => exact completeScalar_avoids _ _ _ _
  | case2 type _ => exact completeEnum_avoids _ _ _ _
  -- The value of an object type is asked about before the fields inside.
  | case3 object htype =>
    have hobject : ctx.schema.types.object? typeName = some object := by
      rw [TypeSystem.object?, htype]
      rfl
    exact completeObject_avoids hcallbacks hselect hobject path value
  | case4 type _ => exact completeAbstract_avoids hcallbacks hselect _ hinfo _ _
  | case5 type _ => exact completeAbstract_avoids hcallbacks hselect _ hinfo _ _
  | case6 type _ => exact fail_avoids _ _ _ _
  | case7 => exact fail_avoids _ _ _ _

/-- Completing a value, whatever its type. The induction is on the lists around the named type. -/
theorem completeLayers_avoids (typeName : String) (innerRequired : Bool)
    (hinfo : info.types = ctx.schema.types) (layers : List ListWrapping) (path : QueryPath)
    (value : FieldValue) :
    (Completion.completeLayers ctx select typeName innerRequired info layers path value).Avoids bad := by
  induction layers generalizing path value with
  | nil =>
    rw [Completion.completeLayers]
    -- No list wrapper is left.
    split
    · exact requireValue_avoids _ _ _ _
    · exact (completeNamed_avoids hcallbacks hselect typeName hinfo path value).bind
        fun completed _ => requireValue_avoids _ _ _ completed
  | cons wrapper inner ih =>
    rw [Completion.completeLayers]
    -- The outermost list.
    split
    · exact requireValue_avoids _ _ _ _
    · split
      next items _ =>
        refine Avoids.bind (Avoids.joinAll fun c hmem => ?_) fun results _ =>
          gatherItems_avoids _ results
        obtain ⟨index, hindex, rfl⟩ := List.mem_mapIdx.mp hmem
        exact ih _ _
      next => exact fail_avoids _ _ _ _

end Values

/-! ### Executing fields -/

theorem executeField_avoids (hcallbacks : ctx.CallbacksAvoid bad) {nodes : List Field} (hnodes : nodes ≠ [])
    (hselect : SelectAvoids bad select nodes) (object : ObjectType) (parent : FieldValue)
    (path : QueryPath) (key : String) :
    (ctx.executeField select object parent path key nodes).Avoids bad := by
  fun_cases executeField ctx select object parent path key nodes with
  -- A group without a node is not given.
  | case1 => exact absurd rfl hnodes
  | case2 => exact .finish _ _
  | case3 => exact Avoids.bind (.finish _ _) fun completed _ => absorb_avoids _ completed
  | case4 node rest fieldPath _ definition _ =>
    rw [executeDefined]
    split
    -- The arguments may include each other for ever, which is no callback's fault.
    next hendless => exact avoids_abort_iff.mpr (hcallbacks.arguments definition node hendless)
    next => exact Avoids.bind (.finish _ _) fun completed _ => absorb_avoids _ completed
    next arguments _ =>
      -- The resolver may break down by itself, and what it returns may do so while it is completed.
      refine Avoids.bind (hcallbacks.resolvers _ _ _ _) fun result _ => ?_
      refine Avoids.bind ?_ fun completed _ => absorb_avoids _ completed
      cases result with
      | error error => exact .finish _ _
      | ok value => exact completeLayers_avoids hcallbacks hselect _ _ rfl _ _ _

section Groups

variable {execute : String → List Field → Run Completed} {groups : FieldGroups}
  (h : ∀ group ∈ groups, (execute group.1 group.2).Avoids bad)
include h

theorem executeInTurn_avoids : (executeInTurn execute groups).Avoids bad := by
  induction groups with
  | nil => exact .finish _ _
  | cons group rest ih =>
    obtain ⟨hfirst, hrest⟩ := List.forall_mem_cons.mp h
    rw [executeInTurn]
    refine hfirst.bind fun result _ => ?_
    cases result with
    | error error => exact .finish _ _
    | ok value => exact avoids_map_iff.mpr (ih hrest)

theorem executeTogether_avoids : (executeTogether execute groups).Avoids bad := by
  rw [executeTogether]
  refine Avoids.bind (Avoids.joinAll fun c hmem => ?_) fun results _ => gather_avoids results
  obtain ⟨group, hgroup, rfl⟩ := List.mem_map.mp hmem
  exact avoids_map_iff.mpr (h group hgroup)

end Groups

/-- **The fields of an object** break down only if a callback does, or the selections of one of them. There
is a first selection under each of their keys. -/
theorem executeGroups_avoids (hcallbacks : ctx.CallbacksAvoid bad) (object : ObjectType)
    (selectionSets : List (List Selection))
    (hselect : ∀ group ∈ ctx.collectFields object selectionSets, SelectAvoids bad select group.2)
    (serial : Bool) (parent : FieldValue) (path : QueryPath) :
    (ctx.executeGroups select serial object parent path (ctx.collectFields object selectionSets)).Avoids
      bad := by
  -- Groups are not empty, so that each of them has a field to execute.
  have hgrouped := ctx.collectFields_grouped object selectionSets
  have hfields : ∀ group ∈ ctx.collectFields object selectionSets,
      (ctx.executeField select object parent path group.1 group.2).Avoids bad :=
    fun group hgroup => executeField_avoids hcallbacks (hgrouped.nonempty group hgroup)
      (hselect group hgroup) object parent path group.1
  rw [executeGroups]
  refine avoids_map_iff.mpr ?_
  split
  · exact executeInTurn_avoids hfields
  · exact executeTogether_avoids hfields

/-! ### Executing operations -/

/-- **An operation** breaks down only as the fields of its root do, if there is a root type. -/
theorem respond_avoids (hnone : ctx.rootType? = none → ¬ bad .unreachable)
    (h : ∀ root, ctx.rootType? = some root →
      (ctx.executeGroups (ctx.selectWithin ctx.depthLimit) ctx.isSerial root ctx.rootValue .empty
        (ctx.collectFields root [ctx.operation.selections])).Avoids bad) :
    ctx.respond.Avoids bad := by
  have hoperation : ctx.executeOperation.Avoids bad := by
    rw [executeOperation]
    split
    next hroot => exact avoids_abort_iff.mpr (hnone hroot)
    next root hroot =>
      refine (h root hroot).bind fun result _ => ?_
      cases result <;> exact .finish _ _
  -- What the fields have logged is only looked through, so the response breaks down as they do.
  refine hoperation.of_outcome fun why hwhy => ?_
  rw [respond, respondWith_outcome] at hwhy
  cases houtcome : ctx.executeOperation.outcome with
  | ok data => rw [houtcome] at hwhy; cases hwhy
  | error first => rw [houtcome] at hwhy; exact congrArg _ (Except.error.inj hwhy)

end ExecutionContext

end GraphQL
