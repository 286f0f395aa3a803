import GraphQL.Proofs.Execution.Answer

/-!
# Errors are conserved

Every failure of an execution is reported once, and nothing else is. A failure may cross any number
of places on its way to the one that records it, and any number of its siblings may fail with it.

* `GraphQLError.report` — what an error says of its failure;
* `GraphQLError.extensions_exposeCause`, `report_shownError` — the settings of a schema change nothing but
  one extension;
* `errors_perm_failures` — the errors of a response are the failures of its run, and these are the
  failures of the places that the run reaches.
-/

namespace GraphQL

/-- What an error says of its failure: its message and code, and where it is. -/
def GraphQLError.report (error : GraphQLError) :
    String × ErrorCode × Option ErrorPath × List Location :=
  (error.message, error.code, error.path, error.locations)

theorem GraphQLError.report_exposeCause (error : GraphQLError) :
    error.exposeCause.report = error.report := by
  unfold exposeCause
  cases error.cause with
  | none => rfl
  | some cause =>
    simp only
    split <;> rfl

/-- A cause is exposed by one further extension, and only if there is none of its name. -/
theorem GraphQLError.extensions_exposeCause (error : GraphQLError) :
    error.exposeCause.extensions = error.extensions ∨
      error.hasExtension "cause" = false ∧ ∃ text, error.cause = some text ∧
        error.exposeCause.extensions = error.extensions ++ [("cause", .string text)] := by
  unfold exposeCause
  cases error.cause with
  | none => exact .inl rfl
  | some text =>
    by_cases hown : error.hasExtension "cause" = true
    · exact .inl (by simp only [if_pos hown])
    · exact .inr ⟨Bool.eq_false_iff.mpr hown, text, rfl, by simp only [if_neg hown, withExtensions]⟩

theorem ExecutionContext.report_shownError (ctx : ExecutionContext) (error : GraphQLError) :
    (ctx.shownError error).report = error.report := by
  unfold ExecutionContext.shownError
  split
  · exact error.report_exposeCause
  · rfl

namespace ExecutionContext

theorem message_shownError (ctx : ExecutionContext) (error : GraphQLError) :
    (ctx.shownError error).message = error.message :=
  congrArg (fun report => report.1) (ctx.report_shownError error)

theorem code_shownError (ctx : ExecutionContext) (error : GraphQLError) :
    (ctx.shownError error).code = error.code :=
  congrArg (fun report => report.2.1) (ctx.report_shownError error)

theorem path_shownError (ctx : ExecutionContext) (error : GraphQLError) :
    (ctx.shownError error).path = error.path :=
  congrArg (fun report => report.2.2.1) (ctx.report_shownError error)

variable {ctx : ExecutionContext} {response : Response} {log : List Event}

/-- The errors of an answer are the failures in its log, as the response shows them. -/
theorem Answer.errors_perm (h : ctx.Answer response log) :
    response.errors.Perm ((Event.failures log).map ctx.shownError) := by
  rw [h.errors]
  exact (h.recorded.trans h.failed.symm).map ctx.shownError

/-- They are the failures of the places that are reached. -/
theorem Answer.errors_perm_reached (h : ctx.Answer response log) :
    response.errors.Perm (ctx.reachedTree.failures.map ctx.shownError) := by
  rw [h.errors]
  exact h.recorded.map ctx.shownError

end ExecutionContext

section Conservation

variable {schema : Schema} {document : Document} {params : ExecutionParams}
  {ctx : ExecutionContext} {response : Response}

/-- **Errors are conserved.** The errors of a response are a permutation of the failures that occur
while the operation is executed, each with its own message, code, path and locations; these are the
failures of the places that are reached, each place counting once. -/
theorem errors_perm_failures
    (hbuild : ExecutionContext.build schema document params = .ok (.ok ctx))
    (hresponse : (execute schema document params).outcome = .ok response) :
    response.errors.Perm
        ((Event.failures (execute schema document params).log).map ctx.shownError) ∧
      (response.errors.map GraphQLError.report).Perm
        ((Event.failures (execute schema document params).log).map GraphQLError.report) ∧
      (Event.failures (execute schema document params).log).Perm ctx.reachedTree.failures := by
  rw [execute_of_build hbuild] at hresponse ⊢
  have hanswer := ExecutionContext.answer_of_outcome hresponse
  -- A cause that is exposed goes to the extensions of an error, not into its report.
  have hreport : (Event.failures ctx.respond.log).map GraphQLError.report =
      ((Event.failures ctx.respond.log).map ctx.shownError).map GraphQLError.report := by
    rw [List.map_map]
    exact List.map_congr_left fun error _ => (ctx.report_shownError error).symm
  refine ⟨hanswer.errors_perm, ?_, hanswer.failed⟩
  rw [hreport]
  exact hanswer.errors_perm.map GraphQLError.report

/-- Three places of the sample fail, and two of them are items of one list. The error that makes the
list null is recorded after the other one. -/
theorem errors_perm_failures_sample :
    ∃ response, (execute Sample.schema Sample.document Sample.params).outcome = .ok response ∧
      response.errors.map GraphQLError.path =
        [some [.field "user", .field "name"], some [.field "counts", .index 2],
          some [.field "counts", .index 1]] ∧
      (response.errors.map GraphQLError.report).Perm
        ((Event.failures (execute Sample.schema Sample.document Sample.params).log).map
          GraphQLError.report) :=
  ⟨_, rfl, rfl, (errors_perm_failures Sample.build_eq rfl).2.1⟩

end Conservation

end GraphQL
