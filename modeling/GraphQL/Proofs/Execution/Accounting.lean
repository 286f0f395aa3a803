import GraphQL.Proofs.Execution.Realization
import GraphQL.Proofs.Execution.Settlements

/-!
# Accounts of executions

What can be said of the run of an operation from what its resolvers do, is said of the runs of its
values and fields first. An `Accounting` names the steps that executions are put together of, and what
it says of the run of a part is kept by each of them; so it says it of the whole operation.

* `Accounting` — what is said, and that the steps keep it;
* `ExecutionContext.resolving` — what happens between the call of a resolver and its settlement;
* `Accounting.completeLayers`, `Accounting.executeField` — values and fields, if nested selections keep
  it;
* `Accounting.selectWithin`, `Accounting.executeOperation` — the run lemmas, for every depth and for
  the operation.
-/

namespace GraphQL

/-- The continuation is over at once and calls no resolver. -/
def IsQuiet {α β : Type} (next : α → Run β) : Prop :=
  ∀ value, ∃ log result, next value = .finish log result ∧ Event.calls log = []

/-- Something that is said of the runs of fields and values from what the resolvers at and inside of
them do. Every step of an execution keeps it. -/
structure Accounting (ctx : ExecutionContext) where
  /-- What is said of the run of a field or a value. -/
  Holds {α : Type} (run : Run α) (member : Member SettlementTree) : Prop
  /-- What is said of the run of some fields one after the other. -/
  HoldsInTurn {α : Type} (run : Run α) (members : List (Member SettlementTree)) : Prop
  /-- What is over at once without a call. -/
  finish {α : Type} (log : List Event) (result : α) (hlog : Event.calls log = []) :
    Holds (.finish log result) .idle
  /-- What breaks down without a call. -/
  abort {α : Type} (log : List Event) (why : Abort) (member : Member SettlementTree)
    (hlog : Event.calls log = []) : Holds (.abort log why : Run α) member
  /-- Something quiet before a run. -/
  prepend {α : Type} {run : Run α} {member : Member SettlementTree} {log : List Event}
    (hlog : Event.calls log = []) (h : Holds run member) : Holds (run.prepend log) member
  /-- Something quiet after a run. -/
  bind_quiet {α β : Type} {run : Run α} {member : Member SettlementTree} {next : α → Run β}
    (hnext : IsQuiet next) (h : Holds run member) : Holds (run.bind next) member
  /-- Items of a list, or fields of an object, side by side. -/
  joinAll {ι α : Type} {items : List ι} {run : ι → Run α} {member : ι → Member SettlementTree}
    (h : ∀ i ∈ items, Holds (run i) (member i)) :
    Holds (Coroutine.joinAll (items.map run)) ⟨none, .node (items.map member)⟩
  /-- The call of a resolver, and what becomes of its result. -/
  call {object : ObjectType} {parent : FieldValue} {atRoot : Bool} {node : Field} {info : ResolveInfo}
    {arguments : Arguments} {next : ResolverResult → Run Completed} {inner : SettlementTree}
    (hnext : ∀ result, ctx.resolved object parent atRoot node info arguments = .ok result →
      Holds (next result) ⟨none, inner⟩)
    (hfails : ∀ error, ctx.resolved object parent atRoot node info arguments = .ok (.error error) →
      info.located info.path error.toGraphQLError ∈ Event.failures (next (.error error)).log) :
    Holds ((ctx.invoke (ctx.middleware.wrap object.name node.name
        (ctx.baseResolver object.name node.name atRoot)) ⟨parent, arguments, info, ctx.context⟩).bind
      next) ⟨some (ctx.settlement object parent atRoot node info arguments), inner⟩
  /-- No field at all. -/
  nil {α : Type} (result : α) : HoldsInTurn (.finish [] result) []
  /-- What breaks down before any field. -/
  broken {α : Type} (why : Abort) : HoldsInTurn (.abort [] why : Run α) []
  /-- A field in front of others that follow it. -/
  cons {α β : Type} {run : Run α} {member : Member SettlementTree} {next : α → Run β}
    {members : List (Member SettlementTree)} (h : Holds run member)
    (hnext : ∀ value, run.outcome = .ok value → HoldsInTurn (next value) members) :
    HoldsInTurn (run.bind next) (member :: members)
  /-- Something quiet after some fields. -/
  inTurn_bind_quiet {α β : Type} {run : Run α} {members : List (Member SettlementTree)}
    {next : α → Run β} (hnext : IsQuiet next) (h : HoldsInTurn run members) :
    HoldsInTurn (run.bind next) members

/-! ### What is quiet -/

section Quiet

variable {α β : Type}

theorem Coroutine.map_eq_bind {ε : Type} (f : α → β) (c : Coroutine ε α) :
    c.map f = c.bind fun value => .finish [] (f value) := by
  induction c with
  | finish log result =>
    rw [Coroutine.map, Coroutine.bind, Coroutine.prepend, List.append_nil]
  | abort log why => rfl
  | suspend log rest ih => rw [Coroutine.map, Coroutine.bind, ih]

theorem isQuiet_of_pure (f : α → β) : IsQuiet fun value => (.finish [] (f value) : Run β) :=
  fun value => ⟨[], f value, rfl, rfl⟩

theorem Event.calls_recorded (errors : List GraphQLError) :
    Event.calls (errors.map .recorded) = [] := by
  rw [Event.calls, List.filterMap_map]
  exact List.filterMap_eq_nil_iff.mpr fun _ _ => rfl

theorem Event.calls_said (texts : List String) : Event.calls (texts.map .said) = [] := by
  rw [Event.calls, List.filterMap_map]
  exact List.filterMap_eq_nil_iff.mpr fun _ _ => rfl

theorem isQuiet_absorb (nonNull : Bool) : IsQuiet (Completed.absorb nonNull) := by
  intro completed
  fun_cases Completed.absorb nonNull completed <;> exact ⟨_, _, rfl, rfl⟩

theorem isQuiet_gather : IsQuiet (gather (α := α)) := by
  intro results
  fun_cases gather results
  · exact ⟨_, _, rfl, rfl⟩
  · exact ⟨_, _, rfl, Event.calls_recorded _⟩

theorem Completion.isQuiet_requireValue (nonNull : Bool) (info : ResolveInfo) (path : QueryPath) :
    IsQuiet (requireValue nonNull info path) := by
  intro completed
  rcases completed with error | value
  · exact ⟨_, _, rfl, rfl⟩
  · cases value with
    | null => cases nonNull <;> exact ⟨_, _, rfl, rfl⟩
    | _ => exact ⟨_, _, rfl, rfl⟩

theorem Completion.isQuiet_gatherItems (nonNull : Bool) : IsQuiet (gatherItems nonNull) := by
  intro results
  rw [gatherItems]
  split
  · obtain ⟨log, result, hgather, hlog⟩ := isQuiet_gather results
    exact ⟨log, _, by rw [hgather]; rfl, hlog⟩
  · exact ⟨_, _, rfl, Event.calls_recorded _⟩

end Quiet

/-! ### The run of a resolver -/

namespace ExecutionContext

variable (ctx : ExecutionContext) (resolver : Resolver) (resolverContext : ResolverContext)

/-- What happens between the call of a resolver and its settlement. -/
def resolving : Run ResolverResult :=
  let run : Run ResolverResult := ((resolver resolverContext).toCoroutine .said).bind
    fun resolution => resolution.toCoroutine.mapLog .said
  if ctx.schema.config.catchResolverPanics then run.catchPanic (.error .panicked) else run

theorem invoke_eq_resolving :
    ctx.invoke resolver resolverContext =
      ((ctx.resolving resolver resolverContext).bind fun result =>
        .finish [.settled resolverContext.info.path] result).prepend
          [.called resolverContext.info.path resolverContext.parent resolverContext.arguments] := rfl

/-- A resolver takes as long as the resolution that it returns. -/
theorem polls_resolving :
    (ctx.resolving resolver resolverContext).polls = resolver.yields resolverContext := by
  -- Whether a panic is caught makes no difference to the number of visits.
  have hrun : (((resolver resolverContext).toCoroutine Event.said).bind
      fun resolution => resolution.toCoroutine.mapLog .said).polls =
        resolver.yields resolverContext := by
    rw [Resolver.yields]
    cases resolver resolverContext with
    | panicked log message => rfl
    | returned log resolution =>
      rw [Call.toCoroutine, Coroutine.bind, Coroutine.polls_prepend, Coroutine.polls_mapLog]
  rw [resolving]
  split
  · rw [Coroutine.polls_catchPanic, hrun]
  · exact hrun

/-- No resolver is called by another one. -/
theorem calls_resolving : Event.calls (ctx.resolving resolver resolverContext).log = [] := by
  -- What a resolver says itself is no call, and neither is what its resolution says later on.
  have hrun : Event.calls (((resolver resolverContext).toCoroutine Event.said).bind
      fun resolution => resolution.toCoroutine.mapLog .said).log = [] := by
    cases resolver resolverContext with
    | panicked log message => exact Event.calls_said log
    | returned log resolution =>
      rw [Call.toCoroutine, Coroutine.bind, Coroutine.log_prepend, Coroutine.log_mapLog,
        ← List.map_append]
      exact Event.calls_said _
  rw [resolving]
  split
  · rw [Coroutine.log_catchPanic, hrun]
  · exact hrun

end ExecutionContext

namespace Accounting

variable {ctx : ExecutionContext} (A : Accounting ctx) {select : Select} {settle : Settle}
  {info : ResolveInfo} {path : QueryPath}

theorem map {α β : Type} {run : Run α} {member : Member SettlementTree} (f : α → β)
    (h : A.Holds run member) : A.Holds (run.map f) member := by
  rw [Coroutine.map_eq_bind]
  exact A.bind_quiet (isQuiet_of_pure f) h

theorem inTurn_map {α β : Type} {run : Run α} {members : List (Member SettlementTree)} (f : α → β)
    (h : A.HoldsInTurn run members) : A.HoldsInTurn (run.map f) members := by
  rw [Coroutine.map_eq_bind]
  exact A.inTurn_bind_quiet (isQuiet_of_pure f) h

/-- Something quiet that is over at once. -/
theorem quiet {α β : Type} {next : α → Run β} (h : IsQuiet next) (value : α) :
    A.Holds (next value) .idle := by
  obtain ⟨log, result, hresult, hlog⟩ := h value
  rw [hresult]
  exact A.finish log result hlog

/-- A callback before a run. -/
theorem callback {α β : Type} (call : Call α) {next : α → Run β} {member : Member SettlementTree}
    (h : ∀ log value, call = .returned log value → A.Holds (next value) member) :
    A.Holds ((call.toCoroutine Event.said).bind next) member := by
  cases call with
  | panicked log message => exact A.abort _ _ member (Event.calls_said log)
  | returned log value => exact A.prepend (Event.calls_said log) (h log value rfl)

/-! ### Values -/

/-- What is said of the runs of nested selections. -/
def Selects (select : Select) (settle : Settle) : Prop :=
  ∀ object selectionSets value path,
    A.Holds (select object selectionSets value path) ⟨none, settle object selectionSets value path⟩

theorem fail (info : ResolveInfo) (path : QueryPath) (message : String) (code : ErrorCode) :
    A.Holds (info.fail path message code) .idle :=
  A.finish _ _ rfl

theorem completeScalar (scalar : ScalarType) (value : FieldValue) :
    A.Holds (Completion.completeScalar scalar info path value) .idle := by
  fun_cases Completion.completeScalar scalar info path value
  · exact A.finish _ _ rfl
  · exact A.fail info path _ _

theorem completeEnum (type : EnumType) (value : FieldValue) :
    A.Holds (Completion.completeEnum type info path value) .idle := by
  fun_cases Completion.completeEnum type info path value
  · exact A.finish _ _ rfl
  · exact A.fail info path _ _

variable {A}

section Values

variable (hselect : A.Selects select settle)
include hselect

theorem completeObject (object : ObjectType) (value : FieldValue) :
    A.Holds (Completion.completeObject select object info path value)
      ⟨none, .ofObject settle object info path value⟩ := by
  have hselected := hselect object (info.fieldNodes.map FieldNode.selections) value path
  -- Nothing inside is settled before the value is accepted as one of the type.
  rw [Completion.completeObject, SettlementTree.ofObject]
  cases object.isTypeOf with
  | none => exact A.prepend rfl hselected
  | some isTypeOf =>
    refine A.callback _ fun log accepted haccepted => ?_
    simp only [haccepted]
    cases accepted with
    | true => exact hselected
    | false => exact A.fail info path _ _

theorem completeAbstract (abstractType : String) (value : FieldValue) :
    A.Holds (Completion.completeAbstract ctx select abstractType info path value)
      ⟨none, .ofAbstract ctx settle abstractType info path value⟩ := by
  rw [Completion.completeAbstract, SettlementTree.ofAbstract]
  refine A.callback _ fun log name hname => ?_
  simp only [hname]
  cases Completion.concreteType ctx.schema.types abstractType name with
  | error fault => exact A.fail info path _ _
  | ok object => exact completeObject hselect object value

theorem completeNamed (typeName : String) (value : FieldValue) :
    A.Holds (Completion.completeNamed ctx select typeName info path value)
      ⟨none, .ofNamed ctx settle typeName info path value⟩ := by
  rw [Completion.completeNamed, SettlementTree.ofNamed]
  -- Only values of object types settle anything further.
  cases ctx.schema.types.type? typeName with
  | none => exact A.fail info path _ _
  | some definition =>
    cases definition with
    | scalar scalar => exact A.completeScalar scalar value
    | enum type => exact A.completeEnum type value
    | object object => exact completeObject hselect object value
    | interface _ | union _ => exact completeAbstract hselect typeName value
    | inputObject _ => exact A.fail info path _ _

/-- **Values of any type.** The induction is on the list wrappers of the type. -/
theorem completeLayers (typeName : String) (innerRequired : Bool) (wrappers : List ListWrapping)
    (value : FieldValue) :
    A.Holds (Completion.completeLayers ctx select typeName innerRequired info wrappers path value)
      ⟨none, .ofLayers ctx settle typeName info wrappers path value⟩ := by
  induction wrappers generalizing path value with
  | nil =>
    rw [Completion.completeLayers, SettlementTree.ofLayers]
    split
    · exact A.quiet (Completion.isQuiet_requireValue _ info path) _
    · exact A.bind_quiet (Completion.isQuiet_requireValue _ info path)
        (completeNamed hselect typeName value)
  | cons wrapper inner ih =>
    rw [Completion.completeLayers, SettlementTree.ofLayers]
    split
    · exact A.quiet (Completion.isQuiet_requireValue _ info path) _
    · cases Completion.items? value with
      | none => exact A.fail info path _ _
      | some items =>
        dsimp only
        rw [List.mapIdx_eq_zipIdx_map, List.mapIdx_eq_zipIdx_map]
        refine A.bind_quiet (Completion.isQuiet_gatherItems _) (A.joinAll fun i _ => ?_)
        exact ih i.1

/-! ### Fields and selections -/

theorem executeDefined (object : ObjectType) (parent : FieldValue) (atRoot : Bool)
    (definition : FieldDefinition) (node : Field) (info : ResolveInfo) :
    A.Holds (ctx.executeDefined select object parent atRoot definition node info)
      (ctx.definedMember settle object parent atRoot definition node info) := by
  rw [ExecutionContext.executeDefined, ExecutionContext.definedMember]
  cases Coercion.coerceArguments ctx.schema.types definition node ctx.vars with
  | error failure =>
    cases failure with
    | endless => exact A.abort _ _ _ rfl
    | invalid error => exact A.bind_quiet (isQuiet_absorb _) (A.finish _ _ rfl)
  | ok arguments =>
    refine A.call (fun result hresult => ?_) fun error _ => ?_
    · have hsettled : (ctx.settlement object parent atRoot node info arguments).result =
          .ok result := hresult
      refine A.bind_quiet (isQuiet_absorb _) ?_
      rw [hsettled]
      cases result with
      | error error => exact A.finish _ _ rfl
      | ok value => exact completeLayers hselect _ _ _ value
    · -- The failure is logged before it is absorbed.
      cases definition.type.isNonNull <;> exact List.mem_cons_self

theorem executeField (object : ObjectType) (parent : FieldValue) (path : QueryPath) (key : String)
    (nodes : List Field) :
    A.Holds (ctx.executeField select object parent path key nodes)
      (ctx.fieldMember settle object parent path key nodes) := by
  cases nodes with
  | nil => exact A.abort _ _ _ rfl
  | cons node others =>
    rw [ExecutionContext.executeField, ExecutionContext.fieldMember]
    split
    · exact A.finish _ _ rfl
    · cases object.field? node.name with
      | none => exact A.bind_quiet (isQuiet_absorb _) (A.finish _ _ rfl)
      | some definition => exact executeDefined hselect object parent _ definition node _

/-- **Fields side by side.** -/
theorem executeTogether (object : ObjectType) (parent : FieldValue) (path : QueryPath)
    (groups : FieldGroups) :
    A.Holds (ExecutionContext.executeTogether (ctx.executeField select object parent path) groups)
      ⟨none, .node (ctx.groupMembers settle object parent path groups)⟩ :=
  A.bind_quiet isQuiet_gather
    (A.joinAll fun group _ => A.map _ (executeField hselect object parent path group.1 group.2))

end Values

/-- **Nested selections.** The induction is on the depth that is left. -/
theorem selectWithin (depth : Nat) : A.Selects (ctx.selectWithin depth) (ctx.settleWithin depth) := by
  induction depth with
  | zero => exact fun _ _ _ _ => A.abort _ _ _ rfl
  | succ depth ih =>
    intro object selectionSets value path
    exact A.map _ (executeTogether ih object value path _)

/-! ### Operations -/

/-- **Fields one after the other**, as far as they are reached. The induction is on the fields.
Whether the next one is reached is decided by what the field is completed to, which is known from
its place in the tree without looking at its run. -/
theorem executeInTurn {execute : String → List Field → Run Completed}
    {place : String × List Field → Place CompletionTree}
    {member : String × List Field → Member SettlementTree} {groups : FieldGroups}
    (hplace : ∀ group ∈ groups, RealizesPlace (execute group.1 group.2) (place group))
    (h : ∀ group ∈ groups, A.Holds (execute group.1 group.2) (member group)) :
    A.HoldsInTurn (ExecutionContext.executeInTurn execute groups)
      ((groups.map member).take (CompletionTree.reachedInTurn (groups.map place)).length) := by
  induction groups with
  | nil => exact A.nil _
  | cons group rest ih =>
    have hfirst := h group List.mem_cons_self
    have hrealizes := hplace group List.mem_cons_self
    have hrest := ih (fun other hmem => hplace other (List.mem_cons_of_mem group hmem))
      fun other hmem => h other (List.mem_cons_of_mem group hmem)
    rw [ExecutionContext.executeInTurn, List.map_cons, List.map_cons, CompletionTree.reachedInTurn]
    -- A field that ends is completed as its place says, so it is known whether the next one is reached.
    have hcompleted : ∀ result, (execute group.1 group.2).outcome = .ok result →
        (place group).completed = result := by
      intro result hresult
      have hsound : (place group).tree.IsSound := by
        by_contra hbroken
        obtain ⟨why, hwhy⟩ := hrealizes.breaks hbroken
        exact absurd (hresult.symm.trans hwhy) (by simp)
      exact Except.ok.inj ((hrealizes.yields hsound).outcome.symm.trans hresult)
    cases hplaced : (place group).completed with
    | error error =>
      -- The others are not reached.
      refine A.cons hfirst fun result hresult => ?_
      obtain rfl : Except.error error = result := hplaced.symm.trans (hcompleted result hresult)
      exact A.nil _
    | ok value =>
      refine A.cons hfirst fun result hresult => ?_
      obtain rfl : Except.ok value = result := hplaced.symm.trans (hcompleted result hresult)
      exact A.inTurn_map _ hrest

/-- What follows on the root fields is quiet. -/
theorem isQuiet_answer : IsQuiet fun result : Completed =>
    match result with
    | .ok data => (.finish [] data : Run Value)
    | .error error => .finish [.recorded error] .null := by
  intro result
  cases result <;> exact ⟨_, _, rfl, rfl⟩

/-- Without a root type there is no field. -/
theorem rootMembers_of_rootType_none (hroot : ctx.rootType? = none) : ctx.rootMembers = [] := by
  rw [ExecutionContext.rootMembers, hroot]

/-- **An operation whose root fields run one after the other.** -/
-- Without a root type the run breaks down before it settles anything.
theorem executeOperation_inTurn (A : Accounting ctx) (hserial : ctx.isSerial = true) :
    A.HoldsInTurn ctx.executeOperation ctx.rootMembers := by
  cases hroot : ctx.rootType? with
  | none =>
    rw [ExecutionContext.executeOperation, hroot, rootMembers_of_rootType_none hroot]
    exact A.broken _
  | some root =>
    -- Each field keeps account of its own place, and what its place says decides whether the next
    -- one is reached.
    rw [ExecutionContext.executeOperation, hroot]
    refine A.inTurn_bind_quiet isQuiet_answer ?_
    simp only [ExecutionContext.executeGroups, ExecutionContext.rootMembers,
      ExecutionContext.reachedTree, ExecutionContext.tree, hroot, hserial, if_true]
    refine A.inTurn_map _ (executeInTurn (fun group _ => ?_) fun group _ => ?_)
    · exact ExecutionContext.executeField_realizes (ExecutionContext.selectWithin_realizes _) root
        ctx.rootValue .empty group.1 group.2
    · exact executeField (selectWithin _) root ctx.rootValue .empty group.1 group.2

/-- **An operation whose root fields run side by side.** All of them are reached. -/
-- Without a root type the run breaks down before it settles anything.
theorem executeOperation_together (A : Accounting ctx) (hserial : ctx.isSerial = false) :
    A.Holds ctx.executeOperation ⟨none, .node ctx.rootMembers⟩ := by
  cases hroot : ctx.rootType? with
  -- Run together, all root fields are reached, so that no place is cut off.
  | none =>
    rw [ExecutionContext.executeOperation, hroot, rootMembers_of_rootType_none hroot]
    exact A.abort _ _ _ rfl
  | some root =>
    have hmembers : ctx.rootMembers = ctx.groupMembers (ctx.settleWithin ctx.depthLimit) root
        ctx.rootValue .empty (ctx.collectFields root [ctx.operation.selections]) := by
      simp only [ExecutionContext.rootMembers, ExecutionContext.reachedTree, ExecutionContext.tree,
        hroot, hserial, Bool.false_eq_true, if_false]
      refine List.take_of_length_le (Nat.le_of_eq ?_)
      rw [ExecutionContext.groupMembers, ExecutionContext.groupsTree, CompletionTree.places,
        List.length_map, List.length_map]
    rw [ExecutionContext.executeOperation, hroot, hmembers]
    refine A.bind_quiet isQuiet_answer ?_
    simp only [ExecutionContext.executeGroups, hserial, Bool.false_eq_true, if_false]
    exact A.map _ (executeTogether (selectWithin _) root ctx.rootValue .empty _)

end Accounting

end GraphQL
