import GraphQL.Proofs.Execution.CriticalPath
import GraphQL.Proofs.Execution.ErrorConservation
import GraphQL.Proofs.Execution.FieldFailures
import GraphQL.Proofs.Execution.SettledCalls
import GraphQL.Request

/-!
# Bad requests

A response has the status of a bad request exactly if its request was refused before anything was
executed. The status is read off the codes of the errors, which come from all over the engine, so it has
to be shown of each of them on which side it is: the errors of a refused request are fatal and have no
path, and the errors of fields (`FieldFailure`) are not fatal and have one.

## Main definitions

* `Schema.answerWith` — the answer to the text of a request, for any parameters of the execution;
* `Refused` — why a request is refused, in terms of the types of the schema, the text, the name of the
  operation and the variables alone: resolvers and interceptors have no part in it;
* `Json.codes` — the `code` extensions in the JSON form of an error.

## Main results

* `answerWith_of_refused` — a refused request is answered at once, with errors of requests only;
* `exists_build_of_not_refused` — any other one is executed;
* `codes_toJson` — the JSON form of an error has its own code and no other one;
* `bad_request_iff_refused` — the status tells the two apart.
-/

namespace GraphQL

/-- Answers the text of a request. What else belongs to the request is given by the parameters. -/
def Schema.answerWith (schema : Schema) (text : String) (params : ExecutionParams) : Run Response :=
  match (Request.ofQuery text).document with
  | .error response => .finish [] response
  | .ok document => execute schema document params

theorem Schema.answer_eq_answerWith (schema : Schema) (request : Request) :
    schema.answer request = schema.answerWith request.query request.params := rfl

/-- Why a request is refused: its text is no document, no operation or one that the schema does not
support is selected, or its variables cannot be coerced. -/
inductive Refused (types : TypeSystem) (limit : Nat) (text : String) (name : Option String)
    (vars : Variables) : Prop
  | parsing {error : DocumentError} (h : Document.parse text = .error error)
  | selection {document : Document} {error : SelectionError}
      (hparse : Document.parse text = .ok document)
      (h : ExecutionContext.selectOperation document.operations name = .error error)
  | unsupported {document : Document} {operation : OperationDefinition}
      (hparse : Document.parse text = .ok document)
      (hselect : ExecutionContext.selectOperation document.operations name = .ok operation)
      (h : ExecutionContext.supports types operation.type = false)
  | coercion {document : Document} {operation : OperationDefinition} {errors : List GraphQLError}
      (hparse : Document.parse text = .ok document)
      (hselect : ExecutionContext.selectOperation document.operations name = .ok operation)
      (hsupports : ExecutionContext.supports types operation.type = true)
      (h : Coercion.coerceVariables types limit operation.variableDefinitions vars =
        .ok (.error errors))

/-! ### Errors of requests -/

/-- The error is one of a request that is not executed. -/
structure GraphQLError.IsOfRequest (error : GraphQLError) : Prop where
  fatal : error.isRequestFatal = true
  path : error.path = none

namespace Coercion

variable {types : TypeSystem} {limit : Nat}

theorem variableError_isOfRequest (message : String) (location : Location) :
    ((variableError message).withLocation location).IsOfRequest := ⟨rfl, rfl⟩

theorem coerceDeclaredVariable_isOfRequest {definition : VariableDefinition} {raw : Option Value}
    {error : GraphQLError}
    (h : coerceDeclaredVariable types definition raw = .ok (.failed error)) :
    error.IsOfRequest := by
  -- Every failure of a variable has a message of its own, and the place of the declaration.
  have hfailed {message : String} (h : Except.ok (.failed ((variableError message).withLocation
      definition.location)) = (.ok (.failed error) : Except Abort VariableOutcome)) :
      error.IsOfRequest := by
    obtain rfl := VariableOutcome.failed.inj (Except.ok.inj h)
    exact variableError_isOfRequest message definition.location
  unfold coerceDeclaredVariable at h
  dsimp only at h
  split at h
  · exact absurd h (by simp)
  · split at h
    · exact hfailed h
    · split at h
      · split at h
        · exact absurd h (by simp)
        · exact hfailed h
        · exact absurd h (by simp)
      · split at h
        · exact hfailed h
        · exact absurd h (by simp)

/-- Variables that cannot be coerced leave at least one error. -/
theorem coerceVariables_isOfRequest {definitions : List VariableDefinition} {raw : Variables}
    {errors : List GraphQLError}
    (h : coerceVariables types limit definitions raw = .ok (.error errors)) :
    errors ≠ [] ∧ ∀ error ∈ errors, error.IsOfRequest := by
  obtain ⟨hsome, hfailures⟩ := failures_of_coerceVariables h
  refine ⟨hsome, fun error hmem => ?_⟩
  rcases hfailures error hmem with rfl | ⟨definition, -, given, hfails⟩
  · exact ⟨rfl, rfl⟩
  · exact coerceDeclaredVariable_isOfRequest hfails

end Coercion

theorem SelectionError.isOfRequest (error : SelectionError) : error.toGraphQLError.IsOfRequest := by
  cases error with
  | unknownOperation | missingOperationName | noOperation | unsupportedOperation => exact ⟨rfl, rfl⟩

/-! ### Refused requests -/

variable {schema : Schema} {text : String} {params : ExecutionParams} {response : Response}

namespace ExecutionContext

variable {document : Document} {operation : OperationDefinition} {name : Option String}

theorem select_of_error {error : SelectionError}
    (h : selectOperation document.operations name = .error error) :
    select schema document name = .error error := by
  rw [select, h]
  rfl

theorem select_of_unsupported (hselect : selectOperation document.operations name = .ok operation)
    (h : supports schema.types operation.type = false) :
    select schema document name = .error (.unsupportedOperation operation.type) := by
  rw [select, hselect]
  exact if_neg (by rw [h]; decide)

theorem select_of_supports (hselect : selectOperation document.operations name = .ok operation)
    (h : supports schema.types operation.type = true) :
    select schema document name = .ok operation := by
  rw [select, hselect]
  exact if_pos h

end ExecutionContext

theorem answerWith_of_parse {document : Document} (h : Document.parse text = .ok document) :
    schema.answerWith text params = execute schema document params := by
  unfold Schema.answerWith Request.document Request.ofQuery
  rw [h]
  rfl

/-- **A refused request is answered at once**, with errors of requests and nothing else. The cases
are the reasons to refuse it; each of them is found before there is a context, so no resolver has
been called. -/
theorem answerWith_of_refused
    (h : Refused schema.types schema.config.maxVariableErrors text params.operationName params.vars) :
    ∃ errors, schema.answerWith text params = .finish [] (.requestError errors) ∧ errors ≠ [] ∧
      ∀ error ∈ errors, error.IsOfRequest := by
  -- A request that selects no operation is refused with one error, whatever is wrong with the
  -- selection.
  have hunselected {document : Document} {error : SelectionError}
      (hparse : Document.parse text = .ok document)
      (h : ExecutionContext.select schema document params.operationName = .error error) :
      ∃ errors, schema.answerWith text params = .finish [] (.requestError errors) ∧ errors ≠ [] ∧
        ∀ error ∈ errors, error.IsOfRequest := by
    refine ⟨[error.toGraphQLError], ?_, by simp, List.forall_mem_singleton.mpr error.isOfRequest⟩
    rw [answerWith_of_parse hparse, execute, ExecutionContext.build, h]
  cases h with
  -- The text is no document.
  | @parsing error h =>
    refine ⟨[(GraphQLError.new error.message .operationParsingError).withLocations error.locations],
      ?_, by simp, List.forall_mem_singleton.mpr ⟨rfl, rfl⟩⟩
    unfold Schema.answerWith Request.document Request.ofQuery
    rw [h]
    rfl
  | selection hparse h => exact hunselected hparse (ExecutionContext.select_of_error h)
  | unsupported hparse hselect h =>
    exact hunselected hparse (ExecutionContext.select_of_unsupported hselect h)
  -- The coercion of the variables has its own errors, none of which is one of a field.
  | coercion hparse hselect hsupports h =>
    refine ⟨_, ?_, Coercion.coerceVariables_isOfRequest h⟩
    rw [answerWith_of_parse hparse, execute]
    simp only [ExecutionContext.build, ExecutionContext.select_of_supports hselect hsupports, h]
    rfl

/-- **Any other request is executed**, unless the coercion of its variables breaks down. Each step
that could refuse it is looked at in turn, in the order in which the request is prepared. -/
theorem exists_build_of_not_refused
    (h : ¬ Refused schema.types schema.config.maxVariableErrors text params.operationName params.vars)
    (hresponse : (schema.answerWith text params).outcome = .ok response) :
    ∃ document ctx, Document.parse text = .ok document ∧
      ExecutionContext.build schema document params = .ok (.ok ctx) := by
  cases hparse : Document.parse text with
  -- Each step that fails refuses the request, so that the step after it can be looked at.
  | error error => exact absurd (.parsing hparse) h
  | ok document =>
    cases hselect : ExecutionContext.selectOperation document.operations params.operationName with
    | error error => exact absurd (.selection hparse hselect) h
    | ok operation =>
      cases hsupports : ExecutionContext.supports schema.types operation.type with
      | false => exact absurd (.unsupported hparse hselect hsupports) h
      | true =>
        have hoperation := ExecutionContext.select_of_supports hselect hsupports
        cases hcoerce : Coercion.coerceVariables schema.types schema.config.maxVariableErrors
            operation.variableDefinitions params.vars with
        -- A coercion that breaks down leaves no response.
        | error why =>
          rw [answerWith_of_parse hparse, execute] at hresponse
          simp only [ExecutionContext.build, hoperation, hcoerce] at hresponse
          cases hresponse
        | ok coerced =>
          cases coerced with
          | error errors => exact absurd (.coercion hparse hselect hsupports hcoerce) h
          | ok vars =>
            exact ⟨document, _, rfl,
              ExecutionContext.build_eq_ok_iff.mpr ⟨operation, vars, hoperation, hcoerce, rfl⟩⟩

/-! ### Codes that clients see -/

/-- The `code` extensions in the JSON form of an error. -/
def Json.codes : Json → List Json
  | .object members =>
      match Entries.get? members "extensions" with
      | some (.object extensions) =>
          extensions.filterMap fun entry => if entry.1 = "code" then some entry.2 else none
      | _ => []
  | _ => []

/-- **The JSON form of an error has its own code and no other one**, whatever its extensions are. An
extension named `code` is left out when they are written, so the code of the error, which is written
last, is the only entry of that key. -/
theorem codes_toJson (error : GraphQLError) : error.toJson.codes = [.string error.code.name] := by
  -- The extensions are the last member of the error.
  have hmember : ∀ members : List (String × Json), (∀ member ∈ members, member.1 ≠ "extensions") →
      Entries.get? (members ++ [("extensions", Json.object error.visibleExtensions)]) "extensions" =
        some (.object error.visibleExtensions) := by
    intro members hmembers
    induction members with
    | nil => rfl
    | cons member rest ih =>
      obtain ⟨hfirst, hrest⟩ := List.forall_mem_cons.mp hmembers
      rw [List.cons_append, Entries.get?, if_neg hfirst]
      exact ih hrest
  -- The code among the extensions of an error is not written out.
  have hothers : (error.extensions.filter fun entry => entry.1 != "code").filterMap
      (fun entry => if entry.1 = "code" then some entry.2 else none) = [] := by
    refine List.filterMap_eq_nil_iff.mpr fun entry hentry => ?_
    have hne : entry.1 ≠ "code" := by simpa using (List.mem_filter.mp hentry).2
    exact if_neg hne
  unfold GraphQLError.toJson Json.codes
  dsimp only
  -- What is written out are the other extensions, followed by the code of the error.
  rw [hmember]
  · dsimp only
    rw [GraphQLError.visibleExtensions, List.filterMap_append, hothers]
    rfl
  -- The members in front are the message, the locations and the path.
  · intro member hmem
    rcases List.mem_append.mp hmem with hmem | hmem
    · rcases List.mem_append.mp hmem with hmem | hmem
      · rw [List.mem_singleton.mp hmem]
        show "message" ≠ "extensions"
        decide
      · split at hmem
        · exact absurd hmem List.not_mem_nil
        · rw [List.mem_singleton.mp hmem]
          show "locations" ≠ "extensions"
          decide
    · obtain ⟨path, -, rfl⟩ := List.mem_map.mp hmem
      show "path" ≠ "extensions"
      decide

/-! ### Errors of fields -/

namespace ExecutionContext

variable {ctx : ExecutionContext}

/-- The errors of an execution are those of fields. -/
theorem errors_of_fields (h : ctx.respond.outcome = .ok response) :
    ∀ error ∈ response.errors, error.path.isSome ∧ error.isRequestFatal = false := by
  intro error hmem
  obtain ⟨failure, hfailure, rfl⟩ :=
    List.mem_map.mp ((answer_of_outcome h).errors_perm.mem_iff.mp hmem)
  have hfield := fieldFailure_of_mem hfailure
  refine ⟨ctx.path_shownError failure ▸ hfield.path_isSome, ?_⟩
  rw [GraphQLError.isRequestFatal, code_shownError]
  exact hfield.not_isRequestFatal

/-- What a resolver ends with is shown as an error at its field. -/
theorem exists_error_of_settlement (h : ctx.respond.outcome = .ok response)
    {settlement : Settlement} (hmem : settlement ∈ ctx.settlements) {error : ResolverError}
    (herror : settlement.result = .ok (.error error)) :
    ∃ shown ∈ response.errors, shown.path = some settlement.path.toErrorPath ∧
      shown.message = error.message ∧ shown.code = .resolverError := by
  obtain ⟨failure, hfailure, locations, rfl⟩ :=
    (ctx.respond_settles response h).reported settlement hmem error herror
  have hshown := (answer_of_outcome h).errors_perm.mem_iff.mpr (List.mem_map_of_mem hfailure)
  exact ⟨_, hshown, path_shownError ctx _, message_shownError ctx _, code_shownError ctx _⟩

end ExecutionContext

/-! ### The status of a response -/

theorem status_eq_bad_request_iff (response : Response) :
    response.status = 400 ↔ ∃ error ∈ response.errors, error.isRequestFatal = true := by
  unfold Response.status Response.isRequestError
  rw [← List.any_eq_true]
  split <;> simp_all

/-- **Status 400 means that nothing was executed.** It is the status of the refused requests, which are
answered without data, with errors that have no path, and before any resolver is called. Any other
response has the status 200 and errors with paths only. Every error is shown to clients with its own code
alone, so what a resolver ends with, behind all interceptors, is shown as an error of a resolver. -/
theorem bad_request_iff_refused
    (hresponse : (schema.answerWith text params).outcome = .ok response) :
    (response.status = 400 ↔
      Refused schema.types schema.config.maxVariableErrors text params.operationName params.vars) ∧
    (response.status = 400 →
      response.data = .null ∧ response.errors ≠ [] ∧
        (∀ error ∈ response.errors, error.path = none) ∧
        schema.answerWith text params = .finish [] response) ∧
    (response.status ≠ 400 →
      response.status = 200 ∧ (∀ error ∈ response.errors, error.path.isSome) ∧
        ∃ document ctx, Document.parse text = .ok document ∧
          ExecutionContext.build schema document params = .ok (.ok ctx) ∧
          ((Event.calls (schema.answerWith text params).log).map ResolverCall.path).Perm
            (ctx.settlements.map Settlement.path) ∧
          ∀ settlement ∈ ctx.settlements, ∀ error, settlement.result = .ok (.error error) →
            ∃ shown ∈ response.errors, shown.path = some settlement.path.toErrorPath ∧
              shown.message = error.message ∧ shown.code = .resolverError) ∧
    ∀ error ∈ response.errors, error.toJson.codes = [.string error.code.name] := by
  by_cases hrefused : Refused schema.types schema.config.maxVariableErrors text
      params.operationName params.vars
  -- The request is refused: the response is there at once, with errors of requests only.
  · obtain ⟨errors, hanswer, hsome, herrors⟩ := answerWith_of_refused hrefused
    rw [hanswer] at hresponse ⊢
    obtain rfl : Response.requestError errors = response := Except.ok.inj hresponse
    have hstatus : (Response.requestError errors).status = 400 := by
      obtain ⟨error, hmem⟩ := List.exists_mem_of_ne_nil errors hsome
      exact (status_eq_bad_request_iff _).mpr ⟨error, hmem, (herrors error hmem).fatal⟩
    exact ⟨⟨fun _ => hrefused, fun _ => hstatus⟩,
      fun _ => ⟨rfl, hsome, fun error hmem => (herrors error hmem).path, rfl⟩,
      fun hother => absurd hstatus hother, fun error _ => codes_toJson error⟩
  -- The request is executed, and all its errors are those of fields.
  · obtain ⟨document, ctx, hparse, hbuild⟩ := exists_build_of_not_refused hrefused hresponse
    have hexecute : schema.answerWith text params = ctx.respond := by
      rw [answerWith_of_parse hparse, execute_of_build hbuild]
    rw [hexecute] at hresponse ⊢
    have hfields := ctx.errors_of_fields hresponse
    -- The errors of fields are not fatal, whatever the resolvers have ended with.
    have hstatus : response.status ≠ 400 := by
      rw [Ne, status_eq_bad_request_iff]
      rintro ⟨error, hmem, hfatal⟩
      exact absurd ((hfields error hmem).2.symm.trans hfatal) (by decide)
    have hsuccess : response.status = 200 := by
      unfold Response.status at hstatus ⊢
      split at hstatus
      · exact absurd rfl hstatus
      · exact if_neg ‹_›
    -- Each call is one settlement, as far as the places of both are concerned.
    have hcalls : ((Event.calls ctx.respond.log).map ResolverCall.path).Perm
        (ctx.settlements.map Settlement.path) := by
      rw [ctx.paths_settlements]
      exact (ExecutionContext.answer_of_outcome hresponse).called.map _
    refine ⟨⟨fun h => absurd h hstatus, fun h => absurd h hrefused⟩, fun h => absurd h hstatus,
      fun _ => ⟨hsuccess, fun error hmem => (hfields error hmem).1, document, ctx, hparse, hbuild,
        hcalls, ?_⟩, fun error _ => codes_toJson error⟩
    -- A resolver that ends with an error has it reported at its own place.
    intro settlement hmem error herror
    exact ExecutionContext.exists_error_of_settlement hresponse hmem herror

/-- The sample with a resolver of the counts that fails and would have its error look like one of the
request. -/
def Sample.misleadingParams : ExecutionParams :=
  { Sample.params with
    fieldResolver := fun ctx =>
      if ctx.info.fieldName = "counts" then
        .returned [] (.err ⟨"no counts", none, [("code", .string "BAD_REQUEST")]⟩)
      else Resolver.standard ctx }

/-- What the requests of the sample are answered with: the status, and the path and code of each error. -/
def Sample.summary (text : String) : Option (Nat × List (Option ErrorPath × ErrorCode)) :=
  (Sample.schema.answerWith text misleadingParams).outcome.toOption.map fun response =>
    (response.status, response.errors.map fun error => (error.path, error.code))

theorem bad_request_iff_refused_sample :
    (∃ response,
      (Sample.schema.answerWith "{counts}" Sample.misleadingParams).outcome = .ok response ∧
      response.status = 200 ∧
      ∃ shown ∈ response.errors, shown.path = some [.field "counts"] ∧
        shown.toJson.codes = [.string "RESOLVER_ERROR"]) ∧
    ∃ response, Sample.schema.answerWith "counts" Sample.misleadingParams = .finish [] response ∧
      response.status = 400 ∧ response.data = .null := by
  -- Both requests are answered, which is a matter of computation.
  have hexecuted : Sample.summary "{counts}" =
      some (200, [(some [.field "counts"], .resolverError)]) := by decide +kernel
  have hrefused : Sample.summary "counts" = some (400, [(none, .operationParsingError)]) := by
    decide +kernel
  unfold Sample.summary at hexecuted hrefused
  constructor
  · cases houtcome :
        (Sample.schema.answerWith "{counts}" Sample.misleadingParams).outcome with
    | error why =>
      rw [houtcome] at hexecuted
      cases hexecuted
    | ok response =>
      rw [houtcome] at hexecuted
      obtain ⟨hstatus, herrors⟩ := Prod.mk.inj (Option.some.inj hexecuted)
      obtain ⟨shown, hmem, hshown⟩ : ∃ shown ∈ response.errors,
          (shown.path, shown.code) = (some [.field "counts"], ErrorCode.resolverError) :=
        List.mem_map.mp (herrors ▸ List.mem_singleton_self _)
      obtain ⟨hpath, hcode⟩ := Prod.mk.inj hshown
      have hcodes := (bad_request_iff_refused houtcome).2.2.2 shown hmem
      rw [hcode] at hcodes
      exact ⟨response, rfl, hstatus, shown, hmem, hpath, hcodes⟩
  · cases houtcome : (Sample.schema.answerWith "counts" Sample.misleadingParams).outcome with
    | error why =>
      rw [houtcome] at hrefused
      cases hrefused
    | ok response =>
      rw [houtcome] at hrefused
      obtain ⟨hstatus, -⟩ := Prod.mk.inj (Option.some.inj hrefused)
      obtain ⟨hdata, -, -, hanswer⟩ := (bad_request_iff_refused houtcome).2.1 hstatus
      exact ⟨response, hanswer, hstatus, hdata⟩

end GraphQL
