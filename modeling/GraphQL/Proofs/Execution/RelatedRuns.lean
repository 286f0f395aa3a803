import GraphQL.Execution.Basic
import GraphQL.Proofs.Coroutine.Lockstep
import GraphQL.Proofs.Execution.Tree

/-!
# Executions that differ in their errors

Two executions can agree on all but the errors in them, and on these up to a relation. They take the
same visits, call the same resolvers with the same arguments, and have equal data. This module is
about any such relation: errors that point to different places in the document, or that have
different causes.

Runs are compared in lockstep, visit by visit and event by event, so that whatever is read from a
log or an outcome is compared along with it. The lemmas follow the few things that an execution does
with errors: it absorbs, gathers, records and shows them, and never looks at what a relation may
change.

* `Event.Related`, `RunsRelated` — parts of executions in lockstep, up to related errors;
* `Completed.absorb_related`, `gather_related` — related errors are absorbed and gathered alike;
* `respondWith_related` — the responses that are made of them have related errors;
* `Event.calls_eq` — the calls of resolvers are the same.
-/

namespace GraphQL

variable {E : GraphQLError → GraphQLError → Prop} {α β : Type}

/-- Two events are equal, apart from the errors in them, which are related. -/
inductive Event.Related (E : GraphQLError → GraphQLError → Prop) : Event → Event → Prop
  | same (event : Event) : Related E event event
  | failed {error error' : GraphQLError} (h : E error error') : Related E (.failed error) (.failed error')
  | recorded {error error' : GraphQLError} (h : E error error') :
      Related E (.recorded error) (.recorded error')

/-- Two parts of executions in lockstep that have equal values or related errors. -/
abbrev RunsRelated (E : GraphQLError → GraphQLError → Prop) (run run' : Run (Except GraphQLError α)) :
    Prop :=
  Coroutine.Lockstep (Event.Related E) (ExceptRel E Eq) run run'

/-- A value that is there at once. -/
theorem RunsRelated.ok (value : α) : RunsRelated E (.finish [] (.ok value)) (.finish [] (.ok value)) :=
  .pure (.ok rfl)

/-- The values of both are changed. -/
theorem RunsRelated.map {run run' : Run (Except GraphQLError α)} (f : α → β) (h : RunsRelated E run run') :
    RunsRelated E (run.map (Except.map f)) (run'.map (Except.map f)) :=
  Coroutine.Lockstep.map h fun _ _ h => h.map fun _ _ => congrArg f

namespace Completed

theorem fail_related {error error' : GraphQLError} (h : E error error') :
    RunsRelated E (fail error) (fail error') :=
  .finish (.cons (.failed h) .nil) (.error h)

theorem absorb_related (nonNull : Bool) {result result' : Completed} (h : ExceptRel E Eq result result') :
    RunsRelated E (absorb nonNull result) (absorb nonNull result') := by
  cases h with
  | @ok value value' h =>
    obtain rfl := h
    exact .ok value
  | error h =>
    rw [absorb, absorb]
    split
    · exact .pure (.error h)
    · exact .finish (.cons (.recorded h) .nil) (.ok rfl)

/-- A field that has a result is completed alike and absorbs its error alike. -/
theorem absorb_bind_related (nonNull : Bool) {run run' : Run Completed} (h : RunsRelated E run run') :
    RunsRelated E (run.bind (absorb nonNull)) (run'.bind (absorb nonNull)) :=
  Coroutine.Lockstep.bind h fun _ _ h => absorb_related nonNull h

end Completed

/-! ### Siblings -/

section Gathering

variable {results results' : List (Except GraphQLError α)}

theorem errorsOf_related (h : List.Forall₂ (ExceptRel E Eq) results results') :
    List.Forall₂ E (errorsOf results) (errorsOf results') := by
  induction h with
  | nil => exact .nil
  | cons hfirst _ ih =>
    cases hfirst with
    | ok _ => exact ih
    | error h => exact .cons h ih

theorem valuesOf_eq (h : List.Forall₂ (ExceptRel E Eq) results results') :
    valuesOf results = valuesOf results' := by
  induction h with
  | nil => rfl
  | cons hfirst _ ih =>
    cases hfirst with
    | @ok value _ h =>
      obtain rfl := h
      exact congrArg (value :: ·) ih
    | error _ => exact ih

theorem valueOrNull_eq {results results' : List Completed}
    (h : List.Forall₂ (ExceptRel E Eq) results results') :
    results.map Completed.valueOrNull = results'.map Completed.valueOrNull := by
  induction h with
  | nil => rfl
  | cons hfirst _ ih =>
    rw [List.map_cons, List.map_cons, ih]
    cases hfirst with
    | ok h => rw [h]
    | error _ => rfl

/-- Recording related errors. -/
theorem recorded_related {errors errors' : List GraphQLError} (h : List.Forall₂ E errors errors') :
    List.Forall₂ (Event.Related E) (errors.map .recorded) (errors'.map .recorded) :=
  List.rel_map (fun _ _ h => .recorded h) h

theorem gather_related (h : List.Forall₂ (ExceptRel E Eq) results results') :
    RunsRelated E (gather results) (gather results') := by
  -- Either both sides gather values, which are the same, or both have errors.
  have herrors := errorsOf_related h
  have hvalues := valuesOf_eq h
  rw [gather, gather]
  revert herrors
  generalize errorsOf results = errors
  generalize errorsOf results' = errors'
  intro herrors
  cases herrors with
  | nil =>
    rw [hvalues]
    exact .ok _
  | cons hfirst hothers => exact .finish (recorded_related hothers) (.error hfirst)

/-- Two ways to execute fields are related for corresponding groups. -/
def GroupsRelated (E : GraphQLError → GraphQLError → Prop)
    (execute execute' : String → List Field → Run Completed) (groups groups' : FieldGroups) : Prop :=
  List.Forall₂ (fun group group' =>
    group.1 = group'.1 ∧ RunsRelated E (execute group.1 group.2) (execute' group'.1 group'.2))
    groups groups'

end Gathering

namespace ExecutionContext

variable {execute execute' : String → List Field → Run Completed} {groups groups' : FieldGroups}

/-- One after the other, both stop at the same field if they do. The induction is on the fields. -/
theorem executeInTurn_related (h : GroupsRelated E execute execute' groups groups') :
    RunsRelated E (executeInTurn execute groups) (executeInTurn execute' groups') := by
  induction h with
  | nil => exact .ok _
  | @cons group group' _ _ hfirst _ ih =>
    obtain ⟨key, nodes⟩ := group
    obtain ⟨_, nodes'⟩ := group'
    obtain ⟨rfl, hrun⟩ := hfirst
    rw [executeInTurn, executeInTurn]
    -- The first fields end alike: either both stop the object, or both let the others run.
    refine Coroutine.Lockstep.bind hrun fun _ _ hresult => ?_
    cases hresult with
    | error h => exact .pure (.error h)
    | ok h =>
      obtain rfl := h
      exact ih.map _

theorem executeTogether_related (h : GroupsRelated E execute execute' groups groups') :
    RunsRelated E (executeTogether execute groups) (executeTogether execute' groups') := by
  refine (Coroutine.Lockstep.joinAll ?_).bind fun _ _ h => gather_related h
  refine List.rel_map ?_ h
  rintro ⟨key, nodes⟩ ⟨_, nodes'⟩ ⟨rfl, hrun⟩
  exact hrun.map _

end ExecutionContext

/-! ### Responses -/

/-- The errors that are recorded by two related logs. -/
theorem Event.errors_related {log log' : List Event} (h : List.Forall₂ (Event.Related E) log log')
    (hrefl : ∀ error, E error error) :
    List.Forall₂ E (log.filterMap Event.error?) (log'.filterMap Event.error?) := by
  induction h with
  | nil => exact .nil
  | @cons event _ _ _ hfirst _ ih =>
    cases hfirst with
    -- An event that both have logged, which need not be an error.
    | same =>
      cases event with
      | recorded error => exact .cons (hrefl error) ih
      | _ => exact ih
    | failed _ => exact ih
    | recorded h => exact .cons h ih

/-- Two related logs log the same calls in the same order. -/
theorem Event.calls_eq {log log' : List Event} (h : List.Forall₂ (Event.Related E) log log') :
    Event.calls log = Event.calls log' := by
  induction h with
  | nil => rfl
  | @cons event _ _ _ hfirst _ ih =>
    cases hfirst with
    -- Calls are only related to themselves.
    | same =>
      cases event with
      | called path parent arguments => exact congrArg (⟨path, parent, arguments⟩ :: ·) ih
      | _ => exact ih
    | failed _ => exact ih
    | recorded _ => exact ih

namespace ExecutionContext

variable {R : Response → Response → Prop}

/-- Responses are related if those with equal data and related errors are. The induction is on the
visits, and what has been recorded grows with each of them. -/
theorem respondWith_related (expose : Bool) (hrefl : ∀ error, E error error)
    (hresponse : ∀ data errors errors', List.Forall₂ E errors errors' →
      R ((Response.mk data errors).withExposedCauses expose)
        ((Response.mk data errors').withExposedCauses expose))
    {recorded recorded' : List GraphQLError} (hrecorded : List.Forall₂ E recorded recorded')
    {run run' : Run Value} (h : Coroutine.Lockstep (Event.Related E) Eq run run') :
    Coroutine.Lockstep (Event.Related E) R (respondWith expose recorded run)
      (respondWith expose recorded' run') := by
  induction h generalizing recorded recorded' with
  | finish hlog hdata =>
    obtain rfl := hdata
    have herrors := List.rel_append hrecorded (Event.errors_related hlog hrefl)
    exact .finish hlog (hresponse _ _ _ herrors)
  | abort hlog why => exact .abort hlog why
  | suspend hlog _ ih =>
    exact .suspend hlog (ih (List.rel_append hrecorded (Event.errors_related hlog hrefl)))

/-- The data of an operation, given its root fields: an error that no field could absorb is recorded. -/
theorem executeOperation_related {ctx ctx' : ExecutionContext} (hroot : ctx.rootType? = ctx'.rootType?)
    (hgroups : ∀ root, ctx.rootType? = some root →
      RunsRelated E
        (ctx.executeGroups (ctx.selectWithin ctx.depthLimit) ctx.isSerial root ctx.rootValue .empty
          (ctx.collectFields root [ctx.operation.selections]))
        (ctx'.executeGroups (ctx'.selectWithin ctx'.depthLimit) ctx'.isSerial root ctx'.rootValue .empty
          (ctx'.collectFields root [ctx'.operation.selections]))) :
    Coroutine.Lockstep (Event.Related E) Eq ctx.executeOperation ctx'.executeOperation := by
  rw [executeOperation, executeOperation, ← hroot]
  cases htype : ctx.rootType? with
  | none => exact .abort .nil _
  | some root =>
    refine Coroutine.Lockstep.bind (hgroups root htype) fun result result' hresult => ?_
    cases hresult with
    | ok h => exact .pure h
    | error h => exact .finish (.cons (.recorded h) .nil) rfl

end ExecutionContext

end GraphQL
