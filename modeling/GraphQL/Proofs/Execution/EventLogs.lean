import GraphQL.Execution.Basic
import GraphQL.Proofs.Coroutine.Logs

/-!
# What the steps of an execution log

A property of events holds of everything that an execution logs if it holds of what its steps log by
themselves: a failure where a place fails, a record where an error is absorbed or gathered, the call
and the settlement of a resolver, and the texts of callbacks.

* `fail_logs`, `absorb_logs`, `gather_logs`, `gatherItems_logs` — places and the errors they leave;
* `invoke_logs` — the call of a resolver;
* `executeTogether_logs`, `executeInTurn_logs`, `executeGroups_logs` — the fields of an object, given
  what each of them logs;
* `executeOperation_logs` — the operation, given what the fields of its root log.
-/

namespace GraphQL

variable {P : Event → Prop}

/-! ### Places -/

theorem fail_logs {error : GraphQLError} (h : P (.failed error)) : (Completed.fail error).Logs P := by
  intro event hmem
  rw [List.mem_singleton.mp hmem]
  exact h

section Records

variable (hrecorded : ∀ error, P (.recorded error))
include hrecorded

theorem recorded_logs {α : Type} (errors : List GraphQLError) (result : α) :
    (Coroutine.finish (errors.map Event.recorded) result).Logs P := by
  intro event hmem
  obtain ⟨error, -, rfl⟩ := List.mem_map.mp hmem
  exact hrecorded error

theorem absorb_logs (nonNull : Bool) (completed : Completed) :
    (Completed.absorb nonNull completed).Logs P := by
  cases completed with
  | ok value => exact .nothing _
  | error error =>
    cases nonNull with
    | true => exact .nothing _
    | false => exact recorded_logs hrecorded [error] _

theorem gather_logs {α : Type} (results : List (Except GraphQLError α)) :
    (gather results).Logs P := by
  unfold gather
  split
  · exact .nothing _
  · exact recorded_logs hrecorded _ _

theorem gatherItems_logs (nonNull : Bool) (results : List Completed) :
    (Completion.gatherItems nonNull results).Logs P := by
  cases nonNull with
  | true => exact Coroutine.logs_map_iff.mpr (gather_logs hrecorded results)
  | false => exact recorded_logs hrecorded _ _

end Records

/-! ### Fields -/

namespace ExecutionContext

variable {ctx : ExecutionContext}

/-- A resolver is called and settles. What else is logged meanwhile are texts of callbacks. -/
theorem invoke_logs {resolver : Resolver} {resolverContext : ResolverContext}
    (hcalled : P (.called resolverContext.info.path resolverContext.parent
      resolverContext.arguments))
    (hsettled : P (.settled resolverContext.info.path)) (hsaid : ∀ text, P (.said text)) :
    (ctx.invoke resolver resolverContext).Logs P := by
  let run : Run ResolverResult := ((resolver resolverContext).toCoroutine .said).bind
    fun resolution => resolution.toCoroutine.mapLog .said
  have hrun : run.Logs P :=
    (Coroutine.logs_toCoroutine _ hsaid).bind fun _ => Coroutine.logs_mapLog _ hsaid
  have hsettles : ∀ result : ResolverResult,
      (Coroutine.finish [.settled resolverContext.info.path] result).Logs P := by
    intro result event hmem
    rw [List.mem_singleton.mp hmem]
    exact hsettled
  unfold invoke
  refine Coroutine.logs_prepend (fun event hmem => ?_) (Coroutine.Logs.bind ?_ hsettles)
  · rw [List.mem_singleton.mp hmem]
    exact hcalled
  · -- Catching a panic does not change what has been logged.
    split
    · exact Coroutine.logs_catchPanic_iff.mpr hrun
    · exact hrun

section Groups

variable {execute : String → List Field → Run Completed} {groups : FieldGroups}
  (h : ∀ group ∈ groups, (execute group.1 group.2).Logs P)
include h

theorem executeTogether_logs (hrecorded : ∀ error, P (.recorded error)) :
    (executeTogether execute groups).Logs P := by
  refine Coroutine.Logs.bind (.joinAll fun run hmem => ?_) (gather_logs hrecorded)
  obtain ⟨group, hgroup, rfl⟩ := List.mem_map.mp hmem
  exact Coroutine.logs_map_iff.mpr (h group hgroup)

/-- The induction is on the fields: those that are not reached log nothing. -/
theorem executeInTurn_logs : (executeInTurn execute groups).Logs P := by
  induction groups with
  | nil => exact .nothing _
  | cons group rest ih =>
    obtain ⟨hfirst, hrest⟩ := List.forall_mem_cons.mp h
    unfold executeInTurn
    refine hfirst.bind fun result => ?_
    cases result with
    | error error => exact .nothing _
    | ok value => exact Coroutine.logs_map_iff.mpr (ih hrest)

end Groups

theorem executeGroups_logs {select : Select} (serial : Bool) (object : ObjectType)
    (parent : FieldValue) (path : QueryPath) {groups : FieldGroups}
    (h : ∀ group ∈ groups, (ctx.executeField select object parent path group.1 group.2).Logs P)
    (hrecorded : ∀ error, P (.recorded error)) :
    (ctx.executeGroups select serial object parent path groups).Logs P := by
  unfold executeGroups
  refine Coroutine.logs_map_iff.mpr ?_
  cases serial with
  | true => exact executeInTurn_logs h
  | false => exact executeTogether_logs h hrecorded

/-- An execution logs what the fields of its root log, and records the error that they leave. -/
theorem executeOperation_logs
    (h : ∀ root, ctx.rootType? = some root →
      (ctx.executeGroups (ctx.selectWithin ctx.depthLimit) ctx.isSerial root ctx.rootValue .empty
        (ctx.collectFields root [ctx.operation.selections])).Logs P)
    (hrecorded : ∀ error, P (.recorded error)) : ctx.executeOperation.Logs P := by
  unfold executeOperation
  split
  · exact fun event hmem => absurd hmem List.not_mem_nil
  · refine (h _ ‹_›).bind fun result => ?_
    cases result with
    | error error => exact recorded_logs hrecorded [error] _
    | ok data => exact .nothing _

end ExecutionContext

end GraphQL
