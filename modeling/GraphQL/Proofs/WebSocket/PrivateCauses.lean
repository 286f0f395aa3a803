import GraphQL.Proofs.Subscription.RelatedStreams
import GraphQL.Proofs.WebSocket.StartProtocol

/-!
# Causes of errors are private

An error that a callback returns may have a cause. Two runs whose callbacks return the same errors but
for their causes, and do not look at them, cannot be told apart from outside, unless the causes are to be
exposed. Then the responses differ in the `cause` extensions of these errors at most, and only where the
callback has not attached such an extension itself.

* `ResolverError.SameButCause` — errors of callbacks that have different causes;
* `ResolverError.ShownAs`, `GraphQLError.ShownAlike` — what clients see of them;
* `Response.ShownAlike`, `Visit.ShownAlike`, `WebSocket.Reply.ShownAlike` — what clients see of two runs;
* `causes_stay_private` — runs that differ in causes are shown alike.
-/

namespace GraphQL

variable {expose : Bool}

/-! ### What clients see -/

/-- The error without its cause. -/
def ResolverError.withoutCause (error : ResolverError) : ResolverError := { error with cause := none }

/-- Two errors of callbacks are equal, apart from their causes. -/
def ResolverError.SameButCause (error error' : ResolverError) : Prop :=
  error.withoutCause = error'.withoutCause

/-- What clients see of the error of a callback: its message and its extensions. If causes are exposed
and the callback attaches no `cause` itself, one more extension can be there, with the cause. -/
structure ResolverError.ShownAs (expose : Bool) (error : ResolverError) (shown : GraphQLError) : Prop where
  message : shown.message = error.message
  code : shown.code = .resolverError
  extensions : shown.extensions = error.extensions ∨
    expose = true ∧ (∀ entry ∈ error.extensions, entry.1 ≠ "cause") ∧
      ∃ text, error.cause = some text ∧ shown.extensions = error.extensions ++ [("cause", .string text)]

/-- Two errors that clients see are the same, or come from callbacks whose errors differ in their causes
at most, at the same place. -/
inductive GraphQLError.ShownAlike (expose : Bool) : GraphQLError → GraphQLError → Prop
  | same (error : GraphQLError) : ShownAlike expose error error
  | callback {error error' : ResolverError} (h : error.SameButCause error') {shown shown' : GraphQLError}
      (hshown : error.ShownAs expose shown) (hshown' : error'.ShownAs expose shown')
      (hlocations : shown.locations = shown'.locations) (hpath : shown.path = shown'.path) :
      ShownAlike expose shown shown'

/-- The error without its extensions of the name `cause`. -/
def GraphQLError.withoutCauses (error : GraphQLError) : GraphQLError :=
  { error with extensions := error.extensions.filter fun entry => entry.1 != "cause" }

/-- The response without the extensions of the name `cause` of its errors. -/
def Response.withoutCauses (response : Response) : Response :=
  { response with errors := response.errors.map GraphQLError.withoutCauses }

/-- Two responses that differ in the exposed causes of errors of callbacks at most, and not at all if
causes are not exposed. -/
structure Response.ShownAlike (expose : Bool) (response response' : Response) : Prop where
  data : response.data = response'.data
  status : response.status = response'.status
  errors : List.Forall₂ (GraphQLError.ShownAlike expose) response.errors response'.errors
  serialized : response.withoutCauses.toJson = response'.withoutCauses.toJson
  hidden : expose = false → response.toJson = response'.toJson

/-- Two visits that find responses which are shown alike, and leave the same publications. -/
structure Visit.ShownAlike (expose : Bool) (visit visit' : Visit) : Prop where
  found : Coroutine.SameOutcome (Poll.Related (Response.ShownAlike expose)) visit.found visit'.found
  hub : visit.hub = visit'.hub

namespace WebSocket

/-- Two messages that are the same but for the responses or errors in them, which are shown alike. -/
inductive ServerMessage.ShownAlike (expose : Bool) : ServerMessage → ServerMessage → Prop
  | same (message : ServerMessage) : ShownAlike expose message message
  | data (id : String) {response response' : Response} (h : response.ShownAlike expose response') :
      ShownAlike expose (.data id response) (.data id response')
  | error (id : String) {errors errors' : List GraphQLError}
      (h : List.Forall₂ (GraphQLError.ShownAlike expose) errors errors') :
      ShownAlike expose (.error id errors) (.error id errors')

/-- Two replies whose messages are shown alike, and are the same if causes are not exposed. -/
structure Reply.ShownAlike (expose : Bool) (reply reply' : Reply) : Prop where
  messages : List.Forall₂ (ServerMessage.ShownAlike expose) reply.messages reply'.messages
  hidden : expose = false →
    reply.messages.map ServerMessage.toJson = reply'.messages.map ServerMessage.toJson
  ending : reply.ending = reply'.ending
  hub : reply.hub = reply'.hub

end WebSocket

/-! ### Errors -/

namespace ResolverError

theorem SameButCause.refl (error : ResolverError) : error.SameButCause error := rfl

/-- The cause is all that the errors can differ in. -/
theorem SameButCause.parts_eq {error error' : ResolverError} (h : error.SameButCause error') :
    error.message = error'.message ∧ error.extensions = error'.extensions := by
  have hsame : error.withoutCause = error'.withoutCause := h
  have hmessage := congrArg ResolverError.message hsame
  have hextensions := congrArg ResolverError.extensions hsame
  exact ⟨hmessage, hextensions⟩

/-- An error is reported without its cause. -/
theorem shownAs_located (error : ResolverError) (locations : List Location) (path : ErrorPath) :
    error.ShownAs expose ((error.toGraphQLError.withLocations locations).withPath path) :=
  ⟨rfl, rfl, .inl rfl⟩

/-- Where causes are exposed, an error is reported with its cause, unless it has such an extension. -/
theorem shownAs_exposeCause (error : ResolverError) (locations : List Location) (path : ErrorPath) :
    error.ShownAs true ((error.toGraphQLError.withLocations locations).withPath path).exposeCause := by
  have hreport := ((error.toGraphQLError.withLocations locations).withPath path).report_exposeCause
  refine ⟨congrArg (fun report => report.1) hreport, congrArg (fun report => report.2.1) hreport, ?_⟩
  obtain hplain | ⟨hown, text, hcause, hcaused⟩ :=
    ((error.toGraphQLError.withLocations locations).withPath path).extensions_exposeCause
  · exact .inl hplain
  · refine .inr ⟨rfl, fun entry hmem hname => ?_, text, hcause, hcaused⟩
    exact List.any_eq_false.mp hown entry hmem (beq_iff_eq.mpr hname)

/-- Apart from its cause, an error is shown with the extensions that the callback attaches. -/
theorem ShownAs.filter_extensions {error : ResolverError} {shown : GraphQLError}
    (h : error.ShownAs expose shown) :
    shown.extensions.filter (fun entry => entry.1 != "cause") =
      error.extensions.filter fun entry => entry.1 != "cause" := by
  obtain hplain | ⟨-, -, text, -, hcaused⟩ := h.extensions
  · rw [hplain]
  · rw [hcaused, List.filter_append]
    exact List.append_nil _

end ResolverError

namespace GraphQLError

theorem Reported.shownAlike {error error' : GraphQLError}
    (h : Reported ResolverError.SameButCause error error') : ShownAlike expose error error' := by
  cases h with
  | same => exact .same _
  | callback h locations path =>
    exact .callback h (ResolverError.shownAs_located _ _ _) (ResolverError.shownAs_located _ _ _) rfl rfl

theorem Reported.shownAlike_exposeCause {error error' : GraphQLError}
    (h : Reported ResolverError.SameButCause error error') :
    ShownAlike true error.exposeCause error'.exposeCause := by
  cases h with
  | same => exact .same _
  | @callback error error' h locations path =>
    -- Exposing a cause changes the extensions and nothing else of the error.
    have hreport := ((error.toGraphQLError.withLocations locations).withPath path).report_exposeCause
    have hreport' := ((error'.toGraphQLError.withLocations locations).withPath path).report_exposeCause
    refine .callback h (error.shownAs_exposeCause locations path) (error'.shownAs_exposeCause locations path)
      ?_ ?_
    · exact (congrArg (fun report => report.2.2.2) hreport).trans
        (congrArg (fun report => report.2.2.2) hreport').symm
    · exact (congrArg (fun report => report.2.2.1) hreport).trans
        (congrArg (fun report => report.2.2.1) hreport').symm

/-- What is serialized of an error. -/
theorem toJson_congr {error error' : GraphQLError} (hreport : error.report = error'.report)
    (hextensions : error.extensions = error'.extensions) : error.toJson = error'.toJson := by
  simp only [report, Prod.mk.injEq] at hreport
  obtain ⟨hmessage, hcode, hpath, hlocations⟩ := hreport
  rw [toJson, toJson, visibleExtensions, visibleExtensions, hmessage, hcode, hpath, hlocations,
    hextensions]

namespace ShownAlike

variable {shown shown' : GraphQLError}

/-- Both errors say the same of their failure. -/
theorem report_eq (h : ShownAlike expose shown shown') : shown.report = shown'.report := by
  cases h with
  | same => rfl
  | callback h hshown hshown' hlocations hpath =>
    rw [report, report, hshown.message, hshown'.message, hshown.code, hshown'.code, hlocations, hpath,
      h.parts_eq.1]

/-- Without their causes the errors are serialized alike. -/
theorem toJson_withoutCauses (h : ShownAlike expose shown shown') :
    shown.withoutCauses.toJson = shown'.withoutCauses.toJson := by
  refine toJson_congr h.report_eq ?_
  cases h with
  | same => rfl
  | callback h hshown hshown' _ _ =>
    rw [withoutCauses, withoutCauses, hshown.filter_extensions, hshown'.filter_extensions, h.parts_eq.2]

/-- Hidden causes leave no trace in what is serialized. -/
theorem toJson_eq (h : ShownAlike false shown shown') : shown.toJson = shown'.toJson := by
  refine toJson_congr h.report_eq ?_
  cases h with
  | same => rfl
  | callback h hshown hshown' _ _ =>
    have hplain : ∀ {error : ResolverError} {shown : GraphQLError}, error.ShownAs false shown →
        shown.extensions = error.extensions := fun hshown =>
      hshown.extensions.resolve_right fun hexposed => Bool.false_ne_true hexposed.1
    rw [hplain hshown, hplain hshown', h.parts_eq.2]

/-- What is the same for two errors that are shown alike is the same for lists of them. -/
theorem map_eq {β : Type} {f : GraphQLError → β}
    (hf : ∀ shown shown', ShownAlike expose shown shown' → f shown = f shown')
    {errors errors' : List GraphQLError} (h : List.Forall₂ (ShownAlike expose) errors errors') :
    errors.map f = errors'.map f := by
  rw [← List.forall₂_eq_eq_eq]
  exact List.rel_map hf h

end ShownAlike

end GraphQLError

/-! ### Responses and messages -/

namespace Response

/-- Either both responses refuse their requests or none does. -/
theorem isRequestError_eq {response response' : Response}
    (h : List.Forall₂ (GraphQLError.ShownAlike expose) response.errors response'.errors) :
    response.isRequestError = response'.isRequestError := by
  have hfatal := GraphQLError.ShownAlike.map_eq (f := GraphQLError.isRequestFatal)
    (fun _ _ h => congrArg (fun report => report.2.1.isRequestFatal) h.report_eq) h
  have hany : ∀ errors : List GraphQLError, errors.any GraphQLError.isRequestFatal =
      (errors.map GraphQLError.isRequestFatal).any id := fun errors => by rw [List.any_map]; rfl
  rw [isRequestError, isRequestError, hany, hany, hfatal]

/-- Responses with equal data and errors that are shown alike. -/
theorem ShownAlike.of_errors (data : Value) {errors errors' : List GraphQLError}
    (h : List.Forall₂ (GraphQLError.ShownAlike expose) errors errors') :
    ShownAlike expose ⟨data, errors⟩ ⟨data, errors'⟩ := by
  -- Whether the request is refused is told from the codes, which are the same.
  have hrefused : isRequestError ⟨data, errors⟩ = isRequestError ⟨data, errors'⟩ := isRequestError_eq h
  have hempty : errors.isEmpty = errors'.isEmpty := by
    cases h <;> rfl
  refine ⟨rfl, ?_, h, ?_, ?_⟩
  -- The status is that of refused requests on both sides, or on neither.
  · rw [Response.status, Response.status, hrefused]
  -- Without the causes the two are written in the same way.
  · have hserialized := GraphQLError.ShownAlike.map_eq (fun _ _ h => h.toJson_withoutCauses) h
    simp only [toJson, withoutCauses, List.map_map, List.isEmpty_map, hempty, Function.comp_def, hserialized]
  -- With the causes hidden there is nothing to leave out.
  · rintro rfl
    have hserialized := GraphQLError.ShownAlike.map_eq (fun _ _ h => h.toJson_eq) h
    simp only [toJson, hempty, hserialized]

/-- Responses made of equal data and related errors. -/
theorem Related.shownAlike {response response' : Response}
    (h : Related ResolverError.SameButCause expose response response') :
    ShownAlike expose response response' := by
  cases h with
  | same => exact .of_errors _ (List.forall₂_same.mpr fun error _ => .same error)
  | made data h =>
    cases expose with
    | false => exact .of_errors data (h.imp fun _ _ h => h.shownAlike)
    | true => exact .of_errors data (List.rel_map (fun _ _ h => h.shownAlike_exposeCause) h)

end Response

/-- Visits of related streams. -/
theorem Visit.Related.shownAlike {visit visit' : Visit}
    (h : visit.Related ResolverError.SameButCause expose visit') : visit.ShownAlike expose visit' :=
  ⟨h.found.imp fun _ _ hfound => hfound.imp fun _ _ hresponse => hresponse.shownAlike, h.hub⟩

namespace WebSocket

/-- The message that carries a response. -/
theorem responseMessage_shownAlike (id : String) {response response' : Response}
    (h : response.ShownAlike expose response') :
    (responseMessage id response).ShownAlike expose (responseMessage id response') := by
  rw [responseMessage, responseMessage, ← Response.isRequestError_eq h.errors]
  split
  · exact .error id h.errors
  · exact .data id h

/-- Messages with hidden causes are the same text. -/
theorem ServerMessage.ShownAlike.toJson_eq {message message' : ServerMessage}
    (h : message.ShownAlike false message') : message.toJson = message'.toJson := by
  cases h with
  | same => rfl
  | data id h => rw [toJson, toJson, h.hidden rfl]
  | error id h => rw [toJson, toJson, GraphQLError.ShownAlike.map_eq (fun _ _ h => h.toJson_eq) h]

/-- Replies with messages that are shown alike. -/
theorem Reply.ShownAlike.of_messages {reply reply' : Reply}
    (hmessages : List.Forall₂ (ServerMessage.ShownAlike expose) reply.messages reply'.messages)
    (hending : reply.ending = reply'.ending) (hhub : reply.hub = reply'.hub) :
    reply.ShownAlike expose reply' := by
  refine ⟨hmessages, ?_, hending, hhub⟩
  rintro rfl
  rw [← List.forall₂_eq_eq_eq]
  exact List.rel_map (fun _ _ h => h.toJson_eq) hmessages

end WebSocket

/-! ### Requests -/

/-- The responses to a request from a client are those of related streams. -/
theorem Schema.Related.responses {C : ResolverError → ResolverError → Prop} {schema schema' : Schema}
    (h : schema.Related C schema') (request : Request) :
    (schema.responses request).Related C schema.config.exposeErrorCauses (schema'.responses request) := by
  rw [Schema.responses, Schema.responses]
  cases request.document with
  | error response => exact .answering (.pure (.same response))
  | ok document => exact .unstarted h rfl document request.params_related

/-- A client that gives up at a refusal does so in both runs. -/
theorem untilRequestError_related {C : ResolverError → ResolverError → Prop}
    (responses responses' : List Response)
    (h : List.Forall₂ (Response.Related C expose) responses responses') :
    ResponseStream.untilRequestError responses = ResponseStream.untilRequestError responses' := by
  have hany : responses.any Response.isRequestError = responses'.any Response.isRequestError := by
    induction h with
    | nil => rfl
    | cons hfirst _ ih => exact congrArg₂ (· || ·) hfirst.isRequestError_eq ih
  exact congrArg not hany

namespace WebSocket

/-- The operation that a message starts is answered alike. -/
theorem start_shownAlike {schema schema' : Schema}
    (hschema : schema.Related ResolverError.SameButCause schema') (id : String) (request : Request)
    (hub : PubSub) :
    (handleMessage schema (.start id request) hub).ShownAlike schema.config.exposeErrorCauses
      (handleMessage schema' (.start id request) hub) := by
  have htranscript := (hschema.responses request).collectFrom
    (.refl _) untilRequestError_related .nil .nil hub
  rw [handleMessage_start, handleMessage_start]
  refine .of_messages (List.rel_append ?_ ?_) htranscript.ending htranscript.hub
  · exact List.rel_map (fun _ _ h => responseMessage_shownAlike id h.shownAlike) htranscript.responses
  · rw [ResponseStream.collect, ResponseStream.collect, htranscript.ending]
    exact List.forall₂_same.mpr fun message _ => .same message

/-- All messages are answered alike. -/
theorem handleMessage_shownAlike {schema schema' : Schema}
    (hschema : schema.Related ResolverError.SameButCause schema') (message : ClientMessage) (hub : PubSub) :
    (handleMessage schema message hub).ShownAlike schema.config.exposeErrorCauses
      (handleMessage schema' message hub) := by
  cases message with
  | start id request => exact start_shownAlike hschema id request hub
  | connectionInit _ | stop _ | connectionTerminate =>
    exact .of_messages (List.forall₂_same.mpr fun message _ => .same message) rfl rfl

end WebSocket

/-- **Causes of errors are private.** Let two schemas be the same but for the causes of the errors that
their resolvers, subscribers and event sources return, and let two requests be the same but for the causes
of the errors of their resolvers and interceptors, where an interceptor makes nothing of the causes of the
errors that it gets hold of. Then

* both requests are executed with the same number of polls, and break down alike or have responses that are
  shown alike;
* the streams of their responses, visited for the same states of the publications, find responses that are
  shown alike;
* over a websocket every message is answered by messages that are shown alike.

Responses and messages that are shown alike have equal data and statuses, and are serialized to the same
text if causes are not exposed. Otherwise they differ in the `cause` extensions of errors that callbacks
return, each of which gets one such extension at most, and none if it has one of its own. -/
theorem causes_stay_private {schema schema' : Schema}
    (hschema : schema.Related ResolverError.SameButCause schema') :
    (∀ (document : Document) (params params' : ExecutionParams),
      params.Related ResolverError.SameButCause params' →
      Coroutine.SameOutcome (Response.ShownAlike schema.config.exposeErrorCauses)
          (execute schema document params).outcome (execute schema' document params').outcome ∧
        (execute schema document params).polls = (execute schema' document params').polls ∧
        ∀ hubs, List.Forall₂ (Visit.ShownAlike schema.config.exposeErrorCauses)
          ((ResponseStream.subscribe schema document params).visits hubs)
          ((ResponseStream.subscribe schema' document params').visits hubs)) ∧
    ∀ message hub, (WebSocket.handleMessage schema message hub).ShownAlike
      schema.config.exposeErrorCauses (WebSocket.handleMessage schema' message hub) := by
  refine ⟨fun document params params' hparams => ?_,
    fun message hub => WebSocket.handleMessage_shownAlike hschema message hub⟩
  have hexecuted := execute_related (.refl _) hschema hparams document
  have hsubscribed : (ResponseStream.subscribe schema document params).Related ResolverError.SameButCause
      schema.config.exposeErrorCauses (ResponseStream.subscribe schema' document params') :=
    .unstarted hschema rfl document hparams
  refine ⟨hexecuted.outcome.imp fun _ _ h => h.shownAlike, hexecuted.polls_eq, fun hubs => ?_⟩
  exact (hsubscribed.visits (.refl _) hubs).imp fun _ _ h => h.shownAlike

/-! ### An error with a cause -/

namespace CauseSample

/-- An error that may have a cause. -/
def failure (cause : Option String) : ResolverError := ⟨"It failed.", cause, [("retry", .bool false)]⟩

theorem failure_related (cause cause' : Option String) : (failure cause).SameButCause (failure cause') := rfl

/-- A resolver that fails. -/
def resolver (cause : Option String) : Resolver := fun _ => .returned [] (.err (failure cause))

/-- A subscriber whose only event is a failure. -/
def subscriber (cause : Option String) : Subscriber := fun _ =>
  .returned [] (.ok (.feed [.event (.error (failure cause))] []))

/-- Time cannot be told, and the only tick is lost. -/
def schema (expose : Bool) (cause : Option String) : Schema where
  types := (TickSample.schema (subscriber none)).types
  config := { Config.standard with exposeErrorCauses := expose }
  hooks :=
    [("Query", ⟨[("now", ⟨some (resolver cause), none⟩)], none⟩),
      ("Subscription", ⟨[("ticks", ⟨none, some (subscriber cause)⟩)], none⟩)]

/-- The query for the time. -/
def now : Document := TickSample.document .query [] "now" 3

theorem fieldHooks_eq (expose : Bool) (cause : Option String) (typeName fieldName : String) :
    (schema expose cause).fieldHooks typeName fieldName =
      if typeName = "Query" ∧ fieldName = "now" then ⟨some (resolver cause), none⟩
      else if typeName = "Subscription" ∧ fieldName = "ticks" then ⟨none, some (subscriber cause)⟩
      else .none := by
  simp only [schema, Schema.fieldHooks, Schema.typeHooks, Entries.get?, eq_comm (b := typeName)]
  by_cases hquery : typeName = "Query"
  · by_cases hnow : fieldName = "now" <;>
      simp [hquery, hnow, TypeHooks.field, Entries.get?, eq_comm (b := fieldName)]
  · by_cases hsubscription : typeName = "Subscription"
    · by_cases hticks : fieldName = "ticks" <;>
        simp [hsubscription, hticks, TypeHooks.field, Entries.get?, eq_comm (b := fieldName)]
    · simp [hquery, hsubscription, TypeHooks.none, TypeHooks.field]

theorem schema_related (expose : Bool) (cause cause' : Option String) :
    (schema expose cause).Related ResolverError.SameButCause (schema expose cause') where
  types := rfl
  config := rfl
  resolveType typeName := by
    simp only [schema, Schema.typeHooks, Entries.get?]
    split
    · rfl
    · split <;> rfl
  resolver typeName fieldName := by
    rw [fieldHooks_eq, fieldHooks_eq]
    split
    · exact .some fun _ => .returned [] (.ready (.error (failure_related cause cause')))
    · split <;> exact .none
  subscriber typeName fieldName := by
    rw [fieldHooks_eq, fieldHooks_eq]
    split
    · exact .none
    · split
      · exact .some fun _ =>
          .returned [] (.ok (.feed (.cons (.event (.error (failure_related cause cause'))) .nil) []))
      · exact .none

end CauseSample

/-- With its cause hidden the failure of the sample is the same for all messages. Exposed, it is told apart
by one extension. -/
theorem causes_stay_private_sample :
    (∀ expose, (CauseSample.schema expose (some "disk")).Related ResolverError.SameButCause
      (CauseSample.schema expose none)) ∧
    (∀ message hub,
      (WebSocket.handleMessage (CauseSample.schema false (some "disk")) message hub).messages.map
          WebSocket.ServerMessage.toJson =
        (WebSocket.handleMessage (CauseSample.schema false none) message hub).messages.map
          WebSocket.ServerMessage.toJson) ∧
    ∃ response response',
      (execute (CauseSample.schema true (some "disk")) CauseSample.now {}).outcome = .ok response ∧
      (execute (CauseSample.schema true none) CauseSample.now {}).outcome = .ok response' ∧
      response.ShownAlike true response' ∧
      response.errors.map GraphQLError.extensions =
        [[("retry", .bool false), ("cause", .string "disk")]] ∧
      response'.errors.map GraphQLError.extensions = [[("retry", .bool false)]] := by
  have hrelated := fun expose => CauseSample.schema_related expose (some "disk") none
  obtain ⟨-, hhidden⟩ := causes_stay_private (hrelated false)
  obtain ⟨hexposed, -⟩ := causes_stay_private (hrelated true)
  have hparams : ({} : ExecutionParams).Related ResolverError.SameButCause {} :=
    ⟨rfl, rfl, rfl, rfl, Resolver.standard_related, rfl, fun _ _ => .nil⟩
  obtain ⟨houtcome, -, -⟩ := hexposed CauseSample.now {} {} hparams
  refine ⟨hrelated, fun message hub => (hhidden message hub).hidden rfl, _, _, rfl, rfl, ?_, rfl, rfl⟩
  cases houtcome with
  | result h => exact h

end GraphQL
