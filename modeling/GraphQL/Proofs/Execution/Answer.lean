import GraphQL.Proofs.Execution.Realization
import GraphQL.Schema.Builder

/-!
# Operations answer with their trees

The second half of the realization of completion trees: fields, objects, and the response to an
operation.

Each lemma compares one function of the execution with the form of tree that it grows: if the tree
is sound the run has its value, its failures and its calls, in any order; if not it breaks down.
Nested selections are assumed to do so, and the run lemma is the induction on their depth.

* `invoke_ends` — a resolver that is called and settles counts as one call, whatever its callbacks
  report in between;
* `executeField_realizes` — a field realizes its place;
* `executeTogether_realizes`, `executeInTurn_realizes` — the two ways to execute the fields of an
  object;
* `selectWithin_realizes` — the run lemma: the invariant holds at every depth of selections;
* `Answer`, `answer_of_outcome`, `exists_response_iff` — a response is the value of the tree of
  the operation with the errors of its failures, and there is one exactly if the tree is sound.
-/

namespace GraphQL

open CompletionTree

namespace ExecutionContext

variable {ctx : ExecutionContext}

/-! ### Calls of resolvers -/

/-- A resolver that settles is called once. Apart from that its run only logs what its callbacks
report, and that it is settled. Whether panics are caught changes what the run ends with, but not
what it logs, so both cases have the same log. -/
theorem invoke_ends {resolver : Resolver} {resolverContext : ResolverContext}
    {result : ResolverResult} (h : (ctx.invoke resolver resolverContext).outcome = .ok result) :
    ∃ events : List Event, (∀ event ∈ events, event.Quiet) ∧
      (ctx.invoke resolver resolverContext).Ends result
        (.called resolverContext.info.path resolverContext.parent resolverContext.arguments ::
          events) := by
  -- The run of the resolver itself, which may be guarded against panics.
  let run : Run ResolverResult := ((resolver resolverContext).toCoroutine .said).bind
    fun resolution => resolution.toCoroutine.mapLog .said
  let caught : Run ResolverResult :=
    if ctx.schema.config.catchResolverPanics then run.catchPanic (.error .panicked) else run
  have hinvoke : ctx.invoke resolver resolverContext =
      (caught.bind fun result => .finish [.settled resolverContext.info.path] result).prepend
        [.called resolverContext.info.path resolverContext.parent resolverContext.arguments] := rfl
  -- Neither what the resolver says nor what its resolution says is a call or an error.
  have hquiet : ∀ event ∈ run.log, event.Quiet := by
    intro event hmem
    rcases Coroutine.mem_log_bind hmem with hcall | ⟨resolution, _, hresolution⟩
    · obtain ⟨text, rfl⟩ := Coroutine.exists_text_of_mem_log hcall
      exact Event.quiet_said text
    · rw [Coroutine.log_mapLog] at hresolution
      obtain ⟨text, _, rfl⟩ := List.mem_map.mp hresolution
      exact Event.quiet_said text
  -- Catching a panic changes what the run ends with, not what it logs.
  have hlog : caught.log = run.log := by
    simp only [caught]
    split
    · exact Coroutine.log_catchPanic _ run
    · rfl
  rw [hinvoke] at h ⊢
  rw [Coroutine.outcome_prepend, Coroutine.outcome_bind] at h
  -- Where the whole settles the resolver has, and what follows it is a single event.
  have hcaught : caught.outcome = .ok result := by
    cases houtcome : caught.outcome with
    | error why => rw [houtcome] at h; exact absurd h (by simp [Except.bind])
    | ok value => rw [houtcome] at h; exact h
  refine ⟨run.log ++ [.settled resolverContext.info.path], ?_, ?_, ?_⟩
  · intro event hmem
    rcases List.mem_append.mp hmem with hmem | hmem
    · exact hquiet event hmem
    · rw [List.mem_singleton.mp hmem]
      exact Event.quiet_settled _
  -- It ends as the resolver does.
  · rw [Coroutine.outcome_prepend, Coroutine.outcome_bind]
    exact h
  -- It logs the call, then what the resolver says, and at last that it has settled.
  · rw [Coroutine.log_prepend, Coroutine.log_bind _ hcaught, hlog]
    exact .refl _

/-! ### Fields -/

section Fields

variable {select : Select} {grow : Grow} (hselect : SelectRealizes select grow)
include hselect

/-- A field with a definition realizes its place. Its arguments are coerced, its resolver is called
once, and the value is completed; each of the steps may end it, and the tree has a form for each of
these endings. -/
theorem executeDefined_realizes (object : ObjectType) (parent : FieldValue) (atRoot : Bool)
    (key : String) (definition : FieldDefinition) (node : Field) (info : ResolveInfo) :
    RealizesPlace (ctx.executeDefined select object parent atRoot definition node info)
      (ctx.definedPlace grow object parent atRoot key definition node info) := by
  rw [executeDefined, definedPlace]
  cases harguments : Coercion.coerceArguments ctx.schema.types definition node ctx.vars with
  | error failure =>
    cases failure with
    | endless =>
      exact ⟨fun hsound => absurd hsound (not_isSound_broken _), fun _ => .abort _ _⟩
    | invalid error => exact (Realizes.failed _).absorb _ _
  | ok arguments =>
    simp only
    rw [resolved]
    generalize hresolver : ctx.middleware.wrap object.name node.name
      (ctx.baseResolver object.name node.name atRoot) = resolver
    cases houtcome : (ctx.invoke resolver ⟨parent, arguments, info, ctx.context⟩).outcome with
    | error why =>
      refine ⟨fun hsound => absurd hsound (not_isSound_broken _), fun _ => ?_⟩
      exact Coroutine.Breaks.bind _ ⟨why, houtcome⟩
    | ok result =>
      -- One call, and then what the value is completed to.
      obtain ⟨events, hquiet, hends⟩ := invoke_ends houtcome
      refine .call_bind ⟨info.path, parent, arguments⟩ hends hquiet ?_
      cases result with
      | error error => exact (Realizes.failed _).absorb _ _
      | ok value => exact (completeLayers_realizes hselect ..).absorb _ _

/-- **A field realizes its place.** -/
theorem executeField_realizes (object : ObjectType) (parent : FieldValue) (path : QueryPath)
    (key : String) (nodes : List Field) :
    RealizesPlace (ctx.executeField select object parent path key nodes)
      (ctx.fieldPlace grow object parent path key nodes) := by
  cases nodes with
  -- An empty group has a broken tree, as its run breaks down.
  | nil => exact ⟨fun hsound => absurd hsound (not_isSound_broken _), fun _ => .abort _ _⟩
  | cons node others =>
    rw [executeField, fieldPlace]
    by_cases htypename : (node.name == "__typename") = true
    · simp only [if_pos htypename]
      exact ⟨fun _ => .value _, fun hsound => absurd (.leaf _) hsound⟩
    · simp only [if_neg htypename]
      cases object.field? node.name with
      | none => exact (Realizes.failed _).absorb _ _
      | some definition => exact executeDefined_realizes hselect ..

end Fields

/-! ### Objects -/

section Groups

variable {execute : String → List Field → Run Completed}
  {place : String × List Field → Place CompletionTree} {groups : FieldGroups}

/-- The object of some places, as the entries of their keys. -/
theorem map_value_object (places : List (Place CompletionTree)) :
    (completedPlaces places).map Shape.object.value =
      ((completedPlaces places).map (List.map fun entry => (entry.1.text, entry.2))).map
        Value.object := by
  cases completedPlaces places <;> rfl

/-- **Fields side by side.** Every field is executed, whatever becomes of the other ones. The object
is the gathered results, so it has a value if all fields have one, leaves the first error otherwise,
and breaks down if one of them does. -/
theorem executeTogether_realizes
    (h : ∀ group ∈ groups, RealizesPlace (execute group.1 group.2) (place group))
    (hkey : ∀ group ∈ groups, (place group).segment = .field group.1) :
    Realizes ((executeTogether execute groups).map (Except.map .object))
      (.branch .object (groups.map place)) := by
  refine ⟨fun hsound => ?_, fun hsound => ?_⟩
  · rw [isSound_branch_iff, List.forall_mem_map] at hsound
    have hgather := Yields.gather fun group hmem =>
      ((h group hmem).yields (hsound group hmem)).map fun value => (group.1, value)
    -- The entries of the object are those of its places: the segment of each is its key.
    have hentries : (groups.map fun group =>
          (place group).completed.map fun value => (group.1, value)) =
        (groups.map place).map fun place => place.completed.map fun value =>
          (place.segment.text, value) := by
      rw [List.map_map]
      refine List.map_congr_left fun group hmem => ?_
      rw [Function.comp_apply, hkey group hmem]
      rfl
    rw [hentries, ← map_completedPlaces fun entry => (entry.1.text, entry.2)] at hgather
    rw [completed, map_value_object, failures, failuresAmong_eq_flatMap, calls,
      callsAmong_eq_flatMap, List.flatMap_map, List.flatMap_map]
    exact hgather.map Value.object
  · rw [isSound_branch_iff, List.forall_mem_map] at hsound
    push Not at hsound
    -- One field that breaks down is enough, whatever the other ones do.
    obtain ⟨group, hmem, hbroken⟩ := hsound
    have hbreaks := ((h group hmem).breaks hbroken).map (Except.map fun value => (group.1, value))
    exact ((hbreaks.joinAll (List.mem_map_of_mem hmem)).bind _).map _

/-- Fields one after the other, with the places that are reached. The induction is on the fields:
after an error that is left to the object nothing is executed any more. -/
theorem executeInTurn_yields
    (h : ∀ group ∈ groups, RealizesPlace (execute group.1 group.2) (place group))
    (hkey : ∀ group ∈ groups, (place group).segment = .field group.1)
    (hsound : ∀ reached ∈ reachedInTurn (groups.map place), reached.tree.IsSound) :
    Yields (executeInTurn execute groups)
      ((completedPlaces (reachedInTurn (groups.map place))).map
        (List.map fun entry => (entry.1.text, entry.2)))
      (failuresAmong (reachedInTurn (groups.map place)))
      (callsAmong (reachedInTurn (groups.map place))) := by
  induction groups with
  | nil => exact .value []
  | cons group rest ih =>
    have hfirst := h group List.mem_cons_self
    rw [List.map_cons, reachedInTurn] at hsound ⊢
    rw [executeInTurn]
    cases hcompleted : (place group).completed with
    | error error =>
      -- This is the last place that is reached, and the only one of the remaining ones.
      rw [hcompleted] at hsound
      have hyields := hfirst.yields (hsound (place group) List.mem_cons_self)
      rw [hcompleted] at hyields
      simp only
      rw [completedPlaces_cons, hcompleted, failuresAmong_eq_flatMap, callsAmong_eq_flatMap,
        List.flatMap_singleton, List.flatMap_singleton]
      exact hyields.bind [] (.finish _ _) (.refl _)
    | ok value =>
      rw [hcompleted] at hsound
      -- The field has a value, so that the others are run.
      have hyields := hfirst.yields (hsound (place group) List.mem_cons_self)
      rw [hcompleted] at hyields
      have hrest := ih (fun other hmem => h other (List.mem_cons_of_mem group hmem))
        (fun other hmem => hkey other (List.mem_cons_of_mem group hmem))
        (fun reached hmem => hsound reached (List.mem_cons_of_mem (place group) hmem))
      have hentries :
          (completedPlaces (place group :: reachedInTurn (rest.map place))).map
              (List.map fun entry => (entry.1.text, entry.2)) =
            ((completedPlaces (reachedInTurn (rest.map place))).map
              (List.map fun entry => (entry.1.text, entry.2))).map ((group.1, value) :: ·) := by
        rw [completedPlaces_cons, hcompleted, hkey group List.mem_cons_self]
        cases completedPlaces (reachedInTurn (rest.map place)) <;> rfl
      rw [hentries]
      refine hyields.seq ?_
      exact hrest.map ((group.1, value) :: ·)

/-- A field in turn that breaks down breaks the object down. The induction is on the fields: those
before it have been completed, so it is reached, and nothing after it is run. -/
theorem executeInTurn_breaks
    (h : ∀ group ∈ groups, RealizesPlace (execute group.1 group.2) (place group))
    (hsound : ∃ reached ∈ reachedInTurn (groups.map place), ¬ reached.tree.IsSound) :
    (executeInTurn execute groups).Breaks := by
  induction groups with
  | nil =>
    obtain ⟨_, hmem, _⟩ := hsound
    exact absurd hmem List.not_mem_nil
  | cons group rest ih =>
    have hfirst := h group List.mem_cons_self
    rw [executeInTurn]
    by_cases hgroup : (place group).tree.IsSound
    · -- The field does not break down, so one of the places after it does.
      have hyields := hfirst.yields hgroup
      obtain ⟨reached, hmem, hbroken⟩ := hsound
      rw [List.map_cons, reachedInTurn] at hmem
      cases hcompleted : (place group).completed with
      | error error =>
        rw [hcompleted] at hmem
        rw [List.mem_singleton.mp hmem] at hbroken
        exact absurd hgroup hbroken
      | ok value =>
        rw [hcompleted] at hmem hyields
        rcases List.mem_cons.mp hmem with rfl | hmem
        · exact absurd hgroup hbroken
        · refine hyields.ends.bind_breaks (Coroutine.Breaks.map _ ?_)
          exact ih (fun other hother => h other (List.mem_cons_of_mem group hother))
            ⟨reached, hmem, hbroken⟩
    -- The field breaks down itself, and nothing is run after it.
    · exact (hfirst.breaks hgroup).bind _

/-- **Fields one after the other.** What is executed are the places that are reached. -/
theorem executeInTurn_realizes
    (h : ∀ group ∈ groups, RealizesPlace (execute group.1 group.2) (place group))
    (hkey : ∀ group ∈ groups, (place group).segment = .field group.1) :
    Realizes ((executeInTurn execute groups).map (Except.map .object))
      (.branch .object (reachedInTurn (groups.map place))) := by
  refine ⟨fun hsound => ?_, fun hsound => ?_⟩
  · rw [completed, map_value_object, failures, calls]
    exact (executeInTurn_yields h hkey (isSound_branch_iff.mp hsound)).map Value.object
  · rw [isSound_branch_iff] at hsound
    push Not at hsound
    exact (executeInTurn_breaks h hsound).map _

end Groups

/-! ### Selections -/

theorem executeGroups_realizes {select : Select} {grow : Grow} (serial : Bool)
    (hselect : SelectRealizes select grow) (object : ObjectType) (parent : FieldValue)
    (path : QueryPath) (groups : FieldGroups) :
    Realizes (ctx.executeGroups select serial object parent path groups)
      (if serial then (ctx.groupsTree grow object parent path groups).inTurn
        else ctx.groupsTree grow object parent path groups) := by
  -- What a field realizes does not depend on the order in which the fields are run.
  have hfields : ∀ group ∈ groups,
      RealizesPlace (ctx.executeField select object parent path group.1 group.2)
        (ctx.fieldPlace grow object parent path group.1 group.2) :=
    fun group _ => executeField_realizes hselect object parent path group.1 group.2
  have hkeys : ∀ group ∈ groups,
      (ctx.fieldPlace grow object parent path group.1 group.2).segment = .field group.1 :=
    fun group _ => fieldPlace_segment ctx grow object parent path group.1 group.2
  cases serial with
  | true => exact executeInTurn_realizes hfields hkeys
  | false => exact executeTogether_realizes hfields hkeys

/-- **Nested selections.** The induction is on the depth that is left. -/
theorem selectWithin_realizes (depth : Nat) :
    SelectRealizes (ctx.selectWithin depth) (ctx.growWithin depth) := by
  induction depth with
  | zero => exact fun _ _ _ _ => .broken .endless (.abort _ _)
  | succ depth ih =>
    exact fun object selectionSets value path =>
      executeGroups_realizes false ih object value path (ctx.collectFields object selectionSets)

/-! ### Responses -/

/-- Making a response changes neither what is logged nor whether there is a result. The errors of
the response are the recorded ones, in the order of the log. -/
theorem respondWith_log (expose : Bool) (recorded : List GraphQLError) (run : Run Value) :
    (respondWith expose recorded run).log = run.log := by
  induction run generalizing recorded with
  | suspend log rest ih => exact congrArg (log ++ ·) (ih _)
  | _ => rfl

theorem respondWith_outcome (expose : Bool) (recorded : List GraphQLError) (run : Run Value) :
    (respondWith expose recorded run).outcome = run.outcome.map fun data =>
      (Response.mk data (recorded ++ run.log.filterMap Event.error?)).withExposedCauses expose := by
  -- The induction is on the visits; what is recorded grows with each of them.
  induction run generalizing recorded with
  | finish log data => rfl
  | abort log why => rfl
  | suspend log rest ih =>
    rw [respondWith, Coroutine.outcome, ih, Coroutine.outcome, Coroutine.log, List.filterMap_append,
      List.append_assoc]

/-- How the errors of a response show a recorded error. -/
def shownError (ctx : ExecutionContext) (error : GraphQLError) : GraphQLError :=
  if ctx.schema.config.exposeErrorCauses then error.exposeCause else error

theorem withExposedCauses_errors (data : Value) (errors : List GraphQLError) :
    ((Response.mk data errors).withExposedCauses ctx.schema.config.exposeErrorCauses).errors =
      errors.map ctx.shownError := by
  unfold shownError Response.withExposedCauses
  cases ctx.schema.config.exposeErrorCauses with
  | true => rfl
  | false => exact (List.map_id' errors).symm

theorem withExposedCauses_data (response : Response) (expose : Bool) :
    (response.withExposedCauses expose).data = response.data := by
  cases expose <;> rfl

/-- What a response and the log of its run have to do with the tree of the operation. -/
structure Answer (ctx : ExecutionContext) (response : Response) (log : List Event) : Prop where
  sound : ctx.reachedTree.IsSound
  data : response.data = ctx.reachedTree.completed.valueOrNull
  errors : response.errors = (log.filterMap Event.error?).map ctx.shownError
  recorded : (log.filterMap Event.error?).Perm ctx.reachedTree.failures
  failed : (log.filterMap Event.failure?).Perm ctx.reachedTree.failures
  called : (log.filterMap Event.call?).Perm ctx.reachedTree.calls

/-- The fields of the root, before the errors that they leave are recorded. -/
theorem executeRoot_realizes {root : ObjectType} (hroot : ctx.rootType? = some root) :
    Realizes
      (ctx.executeGroups (ctx.selectWithin ctx.depthLimit) ctx.isSerial root ctx.rootValue .empty
        (ctx.collectFields root [ctx.operation.selections]))
      ctx.reachedTree := by
  rw [reachedTree, tree, hroot]
  exact executeGroups_realizes _ (selectWithin_realizes _) ..

/-- Without a root type there is nothing to execute, and no response. -/
theorem reachedTree_of_rootType_none (hroot : ctx.rootType? = none) :
    ctx.reachedTree = .broken .unreachable := by
  have htree : ctx.tree = .broken .unreachable := by rw [tree, hroot]
  have hturn : (broken .unreachable).inTurn = .broken .unreachable := rfl
  rw [reachedTree, htree, hturn, ite_self]

theorem not_isSound_of_rootType_none (hroot : ctx.rootType? = none) : ¬ ctx.reachedTree.IsSound := by
  rw [reachedTree_of_rootType_none hroot]
  exact not_isSound_broken _

/-- A run whose remaining error is recorded ends with every failure recorded. -/
theorem ends_of_yields {run : Run Completed} {result : Completed} {next : Completed → Run Value}
    {failures : List GraphQLError} {calls : List ResolverCall}
    (h : Yields run result failures calls)
    (hnext : (next result).Ends result.valueOrNull ((leftBy result).map Event.recorded)) :
    ∃ events : List Event, (run.bind next).Ends result.valueOrNull events ∧
      (events.filterMap Event.failure?).Perm failures ∧
      (events.filterMap Event.error?).Perm failures ∧
      (events.filterMap Event.call?).Perm calls := by
  refine ⟨_, h.ends.bind hnext, ?_, ?_, ?_⟩
  · rw [List.filterMap_append, filterMap_failure?_recorded, List.append_nil]
    exact h.failed
  · rw [List.filterMap_append, filterMap_error?_recorded]
    exact h.recorded
  · rw [List.filterMap_append, filterMap_call?_recorded, List.append_nil]
    exact h.called

/-- **The run of an operation** ends with the value of its tree, having recorded every failure. -/
theorem executeOperation_ends (hsound : ctx.reachedTree.IsSound) :
    ∃ events : List Event,
      ctx.executeOperation.Ends ctx.reachedTree.completed.valueOrNull events ∧
      (events.filterMap Event.failure?).Perm ctx.reachedTree.failures ∧
      (events.filterMap Event.error?).Perm ctx.reachedTree.failures ∧
      (events.filterMap Event.call?).Perm ctx.reachedTree.calls := by
  rw [executeOperation]
  cases hroot : ctx.rootType? with
  | none => exact absurd hsound (not_isSound_of_rootType_none hroot)
  | some root =>
    refine ends_of_yields ((executeRoot_realizes hroot).yields hsound) ?_
    cases ctx.reachedTree.completed with
    | error error => exact Coroutine.Ends.finish _ _
    | ok data => exact Coroutine.Ends.finish _ _

/-- **Each response is the answer of the tree of its operation.** -/
theorem answer_of_outcome {response : Response} (h : ctx.respond.outcome = .ok response) :
    ctx.Answer response ctx.respond.log := by
  rw [respond, respondWith_outcome, List.nil_append] at h
  rw [respond, respondWith_log]
  -- A tree that is not sound breaks its run down, and then there is no response.
  have hsound : ctx.reachedTree.IsSound := by
    by_contra hbroken
    have hbreaks : ctx.executeOperation.Breaks := by
      rw [executeOperation]
      cases hroot : ctx.rootType? with
      | none => exact .abort _ _
      | some root => exact ((executeRoot_realizes hroot).breaks hbroken).bind _
    obtain ⟨why, hwhy⟩ := hbreaks
    rw [hwhy] at h
    exact absurd h (by simp [Except.map])
  obtain ⟨events, hends, hfailed, hrecorded, hcalled⟩ := executeOperation_ends hsound
  rw [hends.1] at h
  obtain rfl := Except.ok.inj h
  exact {
    sound := hsound
    data := withExposedCauses_data ..
    errors := withExposedCauses_errors ..
    recorded := (hends.2.filterMap _).trans hrecorded
    failed := (hends.2.filterMap _).trans hfailed
    called := (hends.2.filterMap _).trans hcalled }

/-- **There is a response exactly if no place breaks down.** -/
theorem exists_response_iff :
    (∃ response, ctx.respond.outcome = .ok response) ↔ ctx.reachedTree.IsSound := by
  constructor
  · rintro ⟨response, hresponse⟩
    exact (answer_of_outcome hresponse).sound
  · intro hsound
    obtain ⟨_, hends, _⟩ := executeOperation_ends hsound
    rw [respond, respondWith_outcome, hends.1]
    exact ⟨_, rfl⟩

end ExecutionContext

/-- An execution is prepared for a request that selects an operation whose variables are accepted.
This is all that later proofs have to know about `build`, the fields of the context included. -/
theorem ExecutionContext.build_eq_ok_iff {schema : Schema} {document : Document}
    {params : ExecutionParams} {ctx : ExecutionContext} :
    build schema document params = .ok (.ok ctx) ↔
      ∃ operation vars, select schema document params.operationName = .ok operation ∧
        Coercion.coerceVariables schema.types schema.config.maxVariableErrors
          operation.variableDefinitions params.vars = .ok (.ok vars) ∧
        ctx =
          { schema := schema
            fragments := document.fragments
            operation := operation
            rootValue := params.rootValue
            context := params.context
            vars := vars
            fieldResolver := params.fieldResolver
            typeResolver := params.typeResolver
            middleware := params.middleware
            isEvent := false } := by
  rw [build]
  cases select schema document params.operationName with
  | error error => simp
  | ok operation =>
    -- An operation is selected, so that only its variables can refuse the request.
    simp only [Except.ok.injEq, exists_and_left, exists_eq_left']
    cases Coercion.coerceVariables schema.types schema.config.maxVariableErrors
        operation.variableDefinitions params.vars with
    | error why => simp [bind, Except.bind]
    | ok coerced =>
      cases coerced with
      | error errors => simp [bind, Except.bind, pure, Except.pure, Except.map]
      | ok vars => simp [bind, Except.bind, pure, Except.pure, Except.map, eq_comm]

/-- Preparing an execution breaks down where the coercion of its variables does. -/
theorem ExecutionContext.build_eq_abort_iff {schema : Schema} {document : Document}
    {params : ExecutionParams} {why : Abort} :
    build schema document params = .error why ↔
      ∃ operation, select schema document params.operationName = .ok operation ∧
        Coercion.coerceVariables schema.types schema.config.maxVariableErrors
          operation.variableDefinitions params.vars = .error why := by
  rw [build]
  cases select schema document params.operationName with
  | error error => simp
  | ok operation =>
    simp only [Except.ok.injEq, exists_eq_left']
    cases Coercion.coerceVariables schema.types schema.config.maxVariableErrors
        operation.variableDefinitions params.vars with
    | error why => simp [bind, Except.bind]
    | ok coerced => simp [bind, Except.bind, pure, Except.pure]

/-- A request that selects an operation is answered by its execution. -/
theorem execute_of_build {schema : Schema} {document : Document} {params : ExecutionParams}
    {ctx : ExecutionContext} (h : ExecutionContext.build schema document params = .ok (.ok ctx)) :
    execute schema document params = ctx.respond := by
  rw [execute, h]

/-! ### A request that fails in several places -/

namespace Sample

/-- A field without arguments. -/
def field (name : String) (type : TypeRef) : FieldDefinition := ⟨name, none, type, .empty⟩

/-- A user, who must have a name. -/
def user : ObjectType where
  name := "User"
  description := none
  fields := .ofList [field "id" (.namedNonNull "ID"), field "name" (.namedNonNull "String")]
  interfaces := []
  isTypeOf := none

/-- A user who may be missing, and a list of counts none of which may be. -/
def query : ObjectType where
  name := "Query"
  description := none
  fields := .ofList [field "user" (.named "User"),
    field "counts" ⟨"Int", (Wrapping.required.wrapList?).getD .nullable⟩]
  interfaces := []
  isTypeOf := none

def builder : SchemaBuilder :=
  ((SchemaBuilder.new "Query" none none).register ⟨.object query, .none⟩).register
    ⟨.object user, .none⟩

/-- The schema that the builder makes. -/
def schema : Schema := builder.finish.toOption.getD ⟨⟨[], "", none, none, []⟩, [], .standard⟩

/-- The selection of a field without arguments. -/
def selection (name : String) (selections : List Selection) : Selection :=
  .field ⟨none, name, [], [], selections, ⟨1, 1⟩⟩

/-- The query for everything. -/
def operation : OperationDefinition where
  type := .query
  variableDefinitions := []
  directives := []
  selections :=
    [selection "user" [selection "__typename" [], selection "id" [], selection "name" []],
      selection "counts" []]
  location := ⟨1, 1⟩

def document : Document := ⟨.anonymous operation, []⟩

/-- A user without a name, and two counts that are missing. -/
def params : ExecutionParams where
  rootValue := .source none
    [("user", .source none [("id", .plain (.string "u1"))]),
      ("counts", .list [.plain (.int 1), .null, .null])]

def ctx : ExecutionContext where
  schema := schema
  fragments := []
  operation := operation
  rootValue := params.rootValue
  context := none
  vars := .empty
  fieldResolver := .standard
  typeResolver := .standard
  middleware := .empty
  isEvent := false

theorem finish_eq : builder.finish = .ok schema := rfl

theorem build_eq : ExecutionContext.build schema document params = .ok (.ok ctx) := rfl

/-- Both fields of the root are null in the end. -/
theorem exists_response : ∃ response, (execute schema document params).outcome = .ok response ∧
    response.data = .object [("user", .null), ("counts", .null)] := ⟨_, rfl, rfl⟩

end Sample

end GraphQL
