import GraphQL.Proofs.Execution.RelatedRuns

/-!
# Executions up to locations

Errors point to places in the document. Two executions whose documents are laid out differently can
agree on all but that: they take the same visits, call the same resolvers with the same arguments,
and have equal data and errors that are equal but for the places.

* `GraphQLError.Alike`, `Response.Alike` — agreement up to locations;
* `RunsAlike` — parts of executions in lockstep, up to locations;
* `respondWith_alike` — the responses that are made of them are alike.
-/

namespace GraphQL

/-- The error without the places in the document. -/
def GraphQLError.withoutLocations (error : GraphQLError) : GraphQLError :=
  { error with locations := [] }

/-- Two errors are equal, apart from the places in the document. -/
def GraphQLError.Alike (error error' : GraphQLError) : Prop :=
  error.withoutLocations = error'.withoutLocations

/-- Two responses are equal, apart from the places in the document that errors point to. -/
structure Response.Alike (response response' : Response) : Prop where
  data : response.data = response'.data
  errors : List.Forall₂ GraphQLError.Alike response.errors response'.errors

/-- Two parts of executions in lockstep, apart from the places that errors point to. -/
abbrev RunsAlike {α : Type} (run run' : Run (Except GraphQLError α)) : Prop :=
  RunsRelated GraphQLError.Alike run run'

/-- Causes are exposed without regard to locations. -/
theorem GraphQLError.Alike.exposeCause {error error' : GraphQLError} (h : error.Alike error') :
    error.exposeCause.Alike error'.exposeCause := by
  have hcomm : ∀ error : GraphQLError,
      error.exposeCause.withoutLocations = error.withoutLocations.exposeCause := by
    intro error
    have hcause : error.withoutLocations.cause = error.cause := rfl
    have hextension : error.withoutLocations.hasExtension "cause" =
        error.hasExtension "cause" := rfl
    rw [GraphQLError.exposeCause, GraphQLError.exposeCause, hcause, hextension]
    cases error.cause with
    | none => rfl
    | some cause =>
      by_cases hknown : error.hasExtension "cause" = true
      · simp only [if_pos hknown]
      · simp only [if_neg hknown]
        rfl
  rw [GraphQLError.Alike, hcomm, hcomm, h]

theorem Response.Alike.withExposedCauses {response response' : Response}
    (h : response.Alike response') (expose : Bool) :
    (response.withExposedCauses expose).Alike (response'.withExposedCauses expose) := by
  rw [Response.withExposedCauses, Response.withExposedCauses]
  split
  · exact ⟨h.data, List.rel_map (fun _ _ h => h.exposeCause) h.errors⟩
  · exact h

/-- The responses of executions that are alike. -/
theorem ExecutionContext.respondWith_alike (expose : Bool) {run run' : Run Value}
    (h : Coroutine.Lockstep (Event.Related GraphQLError.Alike) Eq run run') :
    Coroutine.Lockstep (Event.Related GraphQLError.Alike) Response.Alike (respondWith expose [] run)
      (respondWith expose [] run') := by
  refine respondWith_related (E := GraphQLError.Alike) expose (fun _ => rfl) ?_ .nil h
  intro data errors errors' herrors
  have halike : Response.Alike ⟨data, errors⟩ ⟨data, errors'⟩ := ⟨rfl, herrors⟩
  exact halike.withExposedCauses expose

end GraphQL
