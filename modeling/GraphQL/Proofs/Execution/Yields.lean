import GraphQL.Execution.Complete
import GraphQL.Proofs.Coroutine.Endings
import GraphQL.Proofs.Execution.Tree
import Mathlib.Data.List.Perm.Basic

/-!
# What runs yield

`Yields run result failures calls` is the balance of a part of an execution: it ends with the
result, the places that fail in it fail with the given errors, the resolvers called in it are called
with the given calls, and every error is either recorded on the way or left to the place around it.

* `Yields.quiet_bind` — callbacks that only report texts do not count;
* `Yields.absorb` — a nullable place records the error that it is left with;
* `Yields.gather`, `Yields.gatherItems` — a group yields what its members yield together, and
  exactly one of the errors that they leave is left by the group.
-/

open scoped List

namespace GraphQL

variable {α β ι : Type}

/-- The errors that a result leaves to the place around it. -/
def leftBy : Except GraphQLError α → List GraphQLError
  | .error error => [error]
  | .ok _ => []

theorem leftBy_map (f : α → β) (result : Except GraphQLError α) :
    leftBy (result.map f) = leftBy result := by
  cases result <;> rfl

/-- The run ends with the result; its failures and its calls are the given ones, and each failure is
recorded by the run or left by the result. -/
structure Yields (run : Run (Except GraphQLError α)) (result : Except GraphQLError α)
    (failures : List GraphQLError) (calls : List ResolverCall) : Prop where
  outcome : run.outcome = .ok result
  failed : (run.log.filterMap Event.failure?).Perm failures
  recorded : (run.log.filterMap Event.error? ++ leftBy result).Perm failures
  called : (run.log.filterMap Event.call?).Perm calls

/-- An event that neither is a failure or a call nor records an error. -/
structure Event.Quiet (event : Event) : Prop where
  failure? : event.failure? = none
  error? : event.error? = none
  call? : event.call? = none

theorem Event.quiet_said (text : String) : (Event.said text).Quiet := ⟨rfl, rfl, rfl⟩

theorem Event.quiet_settled (path : QueryPath) : (Event.settled path).Quiet := ⟨rfl, rfl, rfl⟩

section Quiet

variable {events : List Event} (h : ∀ event ∈ events, event.Quiet)
include h

theorem filterMap_failure?_of_quiet : events.filterMap Event.failure? = [] :=
  List.filterMap_eq_nil_iff.mpr fun event hmem => (h event hmem).failure?

theorem filterMap_error?_of_quiet : events.filterMap Event.error? = [] :=
  List.filterMap_eq_nil_iff.mpr fun event hmem => (h event hmem).error?

theorem filterMap_call?_of_quiet : events.filterMap Event.call? = [] :=
  List.filterMap_eq_nil_iff.mpr fun event hmem => (h event hmem).call?

end Quiet

/-! ### Recording errors -/

section Recorded

variable (errors : List GraphQLError)

@[simp] theorem filterMap_failure?_recorded :
    (errors.map Event.recorded).filterMap Event.failure? = [] := by
  induction errors with
  | nil => rfl
  | cons error rest ih => exact ih

@[simp] theorem filterMap_error?_recorded :
    (errors.map Event.recorded).filterMap Event.error? = errors := by
  induction errors with
  | nil => rfl
  | cons error rest ih => exact congrArg (error :: ·) ih

@[simp] theorem filterMap_call?_recorded :
    (errors.map Event.recorded).filterMap Event.call? = [] := by
  induction errors with
  | nil => rfl
  | cons error rest ih => exact ih

end Recorded

namespace Yields

/-- A balance can be drawn up for the events in any order. -/
theorem of_ends {run : Run (Except GraphQLError α)} {result : Except GraphQLError α}
    {events : List Event} {failures : List GraphQLError} {calls : List ResolverCall}
    (h : run.Ends result events) (hfailed : (events.filterMap Event.failure?).Perm failures)
    (hrecorded : (events.filterMap Event.error? ++ leftBy result).Perm failures)
    (hcalled : (events.filterMap Event.call?).Perm calls) : Yields run result failures calls where
  outcome := h.1
  failed := (h.2.filterMap _).trans hfailed
  recorded := ((h.2.filterMap _).append_right _).trans hrecorded
  called := (h.2.filterMap _).trans hcalled

/-- The run of a balance ends. -/
theorem ends {run : Run (Except GraphQLError α)} {result : Except GraphQLError α}
    {failures : List GraphQLError} {calls : List ResolverCall}
    (h : Yields run result failures calls) : run.Ends result run.log :=
  ⟨h.outcome, .refl _⟩

/-- A value that is there. -/
theorem value (value : α) : Yields (.finish [] (.ok value)) (.ok value) [] [] :=
  of_ends (.finish _ _) (.refl _) (.refl _) (.refl _)

/-- A place that fails. -/
theorem fail (error : GraphQLError) :
    Yields (Completed.fail error) (.error error) [error] [] :=
  of_ends (.finish _ _) (.refl _) (.refl _) (.refl _)

theorem map {run : Run (Except GraphQLError α)} {result : Except GraphQLError α}
    {failures : List GraphQLError} {calls : List ResolverCall} (f : α → β)
    (h : Yields run result failures calls) :
    Yields (run.map (Except.map f)) (result.map f) failures calls := by
  refine of_ends (h.ends.map (Except.map f)) h.failed ?_ h.called
  rw [leftBy_map]
  exact h.recorded

/-- What happens quietly before a run does not count. -/
theorem quiet_bind {γ : Type} {before : Run γ} {next : γ → Run (Except GraphQLError α)} {c : γ}
    {events : List Event} {result : Except GraphQLError α} {failures : List GraphQLError}
    {calls : List ResolverCall} (hbefore : before.Ends c events)
    (hquiet : ∀ event ∈ events, event.Quiet) (h : Yields (next c) result failures calls) :
    Yields (before.bind next) result failures calls := by
  refine of_ends (hbefore.bind h.ends) ?_ ?_ ?_
  -- None of the three columns has an entry for a quiet event.
  · rw [List.filterMap_append, filterMap_failure?_of_quiet hquiet]
    exact h.failed
  · rw [List.filterMap_append, filterMap_error?_of_quiet hquiet]
    exact h.recorded
  · rw [List.filterMap_append, filterMap_call?_of_quiet hquiet]
    exact h.called

/-- A continuation that takes a result to another one and accounts for the errors that the result
leaves: each is recorded or left again. -/
theorem bind {run : Run (Except GraphQLError α)}
    {next : Except GraphQLError α → Run (Except GraphQLError β)} {result : Except GraphQLError α}
    {result' : Except GraphQLError β} {failures : List GraphQLError} {calls : List ResolverCall}
    (h : Yields run result failures calls) (errors : List GraphQLError)
    (hnext : (next result).Ends result' (errors.map Event.recorded))
    (hleft : (errors ++ leftBy result').Perm (leftBy result)) :
    Yields (run.bind next) result' failures calls := by
  refine of_ends (h.ends.bind hnext) ?_ ?_ ?_
  · rw [List.filterMap_append, filterMap_failure?_recorded, List.append_nil]
    exact h.failed
  · rw [List.filterMap_append, filterMap_error?_recorded, List.append_assoc]
    exact (hleft.append_left _).trans h.recorded
  · rw [List.filterMap_append, filterMap_call?_recorded, List.append_nil]
    exact h.called

/-- **A place that may be null records the error that it is left with.** -/
theorem absorb {run : Run Completed} {result : Completed} {failures : List GraphQLError}
    {calls : List ResolverCall} (nonNull : Bool) (h : Yields run result failures calls) :
    Yields (run.bind (Completed.absorb nonNull)) (result.absorbed nonNull) failures calls := by
  cases result with
  | ok value => exact h.bind [] (.finish _ _) (.refl _)
  | error error =>
    cases nonNull with
    | true => exact h.bind [] (.finish _ _) (.refl _)
    -- Here the error changes sides: it was left by the result and is recorded now.
    | false => exact h.bind [error] (.finish _ _) (.refl _)

/-! ### Groups -/

section Group

variable {members : List ι} {run : ι → Run (Except GraphQLError α)}
  {result : ι → Except GraphQLError α} {failures : ι → List GraphQLError}
  {calls : ι → List ResolverCall}

theorem errorsOf_eq_flatMap (results : List (Except GraphQLError α)) :
    errorsOf results = results.flatMap leftBy := by
  induction results with
  | nil => rfl
  | cons result rest ih =>
    cases result with
    | error error => exact congrArg (error :: ·) ih
    | ok value => exact ih

/-- A group whose results are taken to one result, every error that a member leaves being recorded
or left again, yields what its members yield together. -/
theorem group {finish : List (Except GraphQLError α) → Run (Except GraphQLError β)}
    {result' : Except GraphQLError β} (errors : List GraphQLError)
    (h : ∀ i ∈ members, Yields (run i) (result i) (failures i) (calls i))
    (hfinish : (finish (members.map result)).Ends result' (errors.map Event.recorded))
    (hleft : (errors ++ leftBy result').Perm (errorsOf (members.map result))) :
    Yields ((Coroutine.joinAll (members.map run)).bind finish) result'
      (members.flatMap failures) (members.flatMap calls) := by
  have hjoin : (Coroutine.joinAll (members.map run)).Ends (members.map result)
      (members.flatMap fun i => (run i).log) := .joinAll fun i hi => (h i hi).ends
  refine of_ends (hjoin.bind hfinish) ?_ ?_ ?_
  · rw [List.filterMap_append, filterMap_failure?_recorded, List.append_nil, List.filterMap_flatMap]
    exact .flatMap_left members fun i hi => (h i hi).failed
  · rw [List.filterMap_append, filterMap_error?_recorded, List.append_assoc, List.filterMap_flatMap]
    have hmembers : errorsOf (members.map result) =
        members.flatMap fun i => leftBy (result i) := by
      rw [errorsOf_eq_flatMap, List.flatMap_map]
    -- What is recorded or left in the end is what each member records or leaves, and for each
    -- member these are its failures.
    calc (members.flatMap fun i => (run i).log.filterMap Event.error?) ++
          (errors ++ leftBy result')
        ~ (members.flatMap fun i => (run i).log.filterMap Event.error?) ++
          members.flatMap fun i => leftBy (result i) := (hmembers ▸ hleft).append_left _
      _ ~ members.flatMap fun i => (run i).log.filterMap Event.error? ++ leftBy (result i) :=
          List.flatMap_append_perm members _ _
      _ ~ members.flatMap failures := .flatMap_left members fun i hi => (h i hi).recorded
  · rw [List.filterMap_append, filterMap_call?_recorded, List.append_nil, List.filterMap_flatMap]
    exact .flatMap_left members fun i hi => (h i hi).called

end Group

end Yields

/-! ### The results of siblings -/

namespace CompletionTree

theorem firstError_map (f : α → β) (results : List (Except GraphQLError α)) :
    firstError (results.map (Except.map f)) = (firstError results).map (List.map f) := by
  induction results with
  | nil => rfl
  | cons result rest ih =>
    cases result with
    | error error => rfl
    | ok value =>
      simp only [List.map_cons, Except.map, firstError, ih]
      cases firstError rest <;> rfl

/-- The values of some places, seen through a function of segment and value. -/
theorem map_completedPlaces (f : PathSegment × Value → α) (places : List (Place CompletionTree)) :
    (completedPlaces places).map (List.map f) =
      firstError (places.map fun place => place.completed.map fun value =>
        f (place.segment, value)) := by
  rw [completedPlaces_eq_firstError, ← firstError_map, List.map_map]
  refine congrArg firstError (List.map_congr_left fun place _ => ?_)
  cases hcompleted : place.completed <;> simp [hcompleted, Except.map]

theorem firstError_eq (results : List (Except GraphQLError α)) :
    firstError results =
      match errorsOf results with
      | [] => .ok (valuesOf results)
      | first :: _ => .error first := by
  induction results with
  | nil => rfl
  | cons result rest ih =>
    cases result with
    | error error => rfl
    | ok value =>
      have herrors : errorsOf (.ok value :: rest) = errorsOf rest := rfl
      have hvalues : valuesOf (.ok value :: rest) = value :: valuesOf rest := rfl
      rw [firstError, ih, herrors, hvalues]
      cases errorsOf rest <;> rfl

/-- Results that absorb their errors are all values. -/
theorem firstError_absorbed (results : List Completed) :
    firstError (results.map (Completed.absorbed false)) =
      .ok (results.map Completed.valueOrNull) := by
  induction results with
  | nil => rfl
  | cons result rest ih =>
    have hresult : Completed.absorbed false result = .ok result.valueOrNull := by
      cases result <;> rfl
    rw [List.map_cons, hresult, firstError, ih]
    rfl

end CompletionTree

namespace Yields

variable {members : List ι} {calls : ι → List ResolverCall} {failures : ι → List GraphQLError}

/-- Gathering ends with the first error or with all values. It records the other errors. -/
theorem gather_ends (results : List (Except GraphQLError α)) :
    ∃ others : List GraphQLError,
      (GraphQL.gather results).Ends (CompletionTree.firstError results)
        (others.map Event.recorded) ∧
      (others ++ leftBy (CompletionTree.firstError results)).Perm (errorsOf results) := by
  have hfirst := CompletionTree.firstError_eq results
  cases herrors : errorsOf results with
  | nil =>
    -- Without an error there is nothing to record.
    rw [herrors] at hfirst
    refine ⟨[], ?_, ?_⟩
    · rw [hfirst, GraphQL.gather, herrors]
      exact .finish _ _
    · rw [hfirst]
      exact .refl _
  | cons first others =>
    -- The first error is the one that is left, so the other ones are recorded before it.
    rw [herrors] at hfirst
    refine ⟨others, ?_, ?_⟩
    · rw [hfirst, GraphQL.gather, herrors]
      exact .finish _ _
    · rw [hfirst]
      exact List.perm_append_singleton first others

/-- **Siblings none of which may fail** leave the first error that one of them leaves, and record
the other ones. -/
theorem gather {run : ι → Run (Except GraphQLError α)} {result : ι → Except GraphQLError α}
    (h : ∀ i ∈ members, Yields (run i) (result i) (failures i) (calls i)) :
    Yields ((Coroutine.joinAll (members.map run)).bind GraphQL.gather)
      (CompletionTree.firstError (members.map result)) (members.flatMap failures)
      (members.flatMap calls) := by
  obtain ⟨others, hends, hothers⟩ := gather_ends (members.map result)
  exact group others h hends hothers

/-- **The items of a list** leave the first error if they may not be null, and none otherwise; all
other errors are recorded. -/
theorem gatherItems {run : ι → Run Completed} {result : ι → Completed} (nonNull : Bool)
    (h : ∀ i ∈ members, Yields (run i) (result i) (failures i) (calls i)) :
    Yields ((Coroutine.joinAll (members.map run)).bind (Completion.gatherItems nonNull))
      ((CompletionTree.firstError (members.map fun i => (result i).absorbed nonNull)).map .list)
      (members.flatMap failures) (members.flatMap calls) := by
  cases nonNull with
  | true =>
    -- Nothing is absorbed, so the items are siblings like any other.
    have hresults : (members.map fun i => (result i).absorbed true) = members.map result :=
      List.map_congr_left fun i _ => by cases result i <;> rfl
    obtain ⟨others, hends, hothers⟩ := gather_ends (members.map result)
    rw [hresults]
    refine group others h (hends.map (Except.map Value.list)) ?_
    rw [leftBy_map]
    exact hothers
  | false =>
    -- Every error is absorbed by its item, so all of them are recorded and none is left.
    have hresults : CompletionTree.firstError (members.map fun i => (result i).absorbed false) =
        .ok ((members.map result).map Completed.valueOrNull) := by
      rw [← CompletionTree.firstError_absorbed, List.map_map]
      rfl
    rw [hresults]
    refine group (errorsOf (members.map result)) h (.finish _ _) ?_
    exact .of_eq (List.append_nil _)

end Yields

end GraphQL
