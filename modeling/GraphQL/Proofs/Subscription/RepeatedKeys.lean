import GraphQL.Proofs.Document.PlainFields
import GraphQL.Proofs.Execution.DistinctKeys
import GraphQL.Proofs.Execution.Panics
import GraphQL.Proofs.Subscription.Visits

/-!
# Keys of all responses

Every response that a request or an event of a subscription is answered with is that of an execution, or
has no data. So all of them repeat a key only where an output of a scalar or the extensions of an error
do, and an error that a callback returns is enough for that: its extensions are written out one by one.

* `Response.Answers` — where responses come from, and `Response.Answers.repeatsAttachedOnly` what they repeat;
* `ResponseStream.IsFor`, `ResponseStream.poll_answers` — every visit of a stream finds such a response;
* `responses_repeatAttachedOnly` — all responses, and `extension_repeated`, that extensions are repeated.
-/

namespace GraphQL

section Answers

variable {schema : Schema} {document : Document} {params : ExecutionParams} {ctx : ExecutionContext}
  {response : Response} {run : Run Response}

/-- Where the responses for a schema come from: they are made by an execution, or have no data. -/
inductive Response.Answers (schema : Schema) : Response → Prop
  | executed {ctx : ExecutionContext} {response : Response} (hschema : ctx.schema = schema)
      (h : ctx.respond.outcome = .ok response) : Answers schema response
  | failed {response : Response} (h : response.data = .null) : Answers schema response

theorem Response.Answers.repeatsAttachedOnly (h : response.Answers schema) :
    response.RepeatsAttachedOnly schema := by
  cases h with
  | executed hschema h => exact hschema ▸ ExecutionContext.repeatsAttachedOnly h
  | failed h => exact ExecutionContext.repeatsAttachedOnly_of_null h

theorem ExecutionContext.errorResponse_answers (ctx : ExecutionContext) (error : GraphQLError) :
    (ctx.errorResponse error).Answers schema :=
  .failed (withExposedCauses_data _ _)

/-- If the run ends with a response, then it is one for the schema. -/
def Coroutine.EndsInAnswer (schema : Schema) (run : Run Response) : Prop :=
  ∀ response, run.outcome = .ok response → response.Answers schema

theorem ExecutionContext.respond_endsInAnswer (h : ctx.schema = schema) :
    ctx.respond.EndsInAnswer schema := fun _ houtcome => .executed h houtcome

theorem Coroutine.abort_endsInAnswer (log : List Event) (why : Abort) :
    EndsInAnswer schema (.abort log why) := by
  intro response houtcome
  cases houtcome

/-- An operation is answered by its execution, and a request that is refused by its errors alone. -/
theorem execute_endsInAnswer : (execute schema document params).EndsInAnswer schema := by
  intro response h
  rw [execute] at h
  -- Only a request that has been built has a response of its own.
  cases hbuild : ExecutionContext.build schema document params with
  | error why =>
    rw [hbuild] at h
    cases h
  | ok built =>
    rw [hbuild] at h
    cases built with
    | ok ctx => exact .executed (ExecutionContext.of_build hbuild).1 h
    | error errors =>
      obtain rfl := Except.ok.inj h
      exact .failed rfl

/-- A text that is no document is answered by its error alone. -/
theorem Schema.answer_endsInAnswer (request : Request) :
    (schema.answer request).EndsInAnswer schema := by
  intro response h
  rw [answer] at h
  -- A text that is no document is refused with the error of its parser.
  cases hdocument : request.document with
  | ok document =>
    rw [hdocument] at h
    exact execute_endsInAnswer response h
  | error refusal =>
    rw [hdocument] at h
    obtain rfl := Except.ok.inj h
    rw [Request.document] at hdocument
    cases hparse : Document.parse request.query with
    | ok document => rw [hparse] at hdocument; cases hdocument
    | error error =>
      rw [hparse] at hdocument
      obtain rfl := Except.error.inj hdocument
      exact .failed rfl

/-! ### Streams -/

/-- The response that the visit finds, if it finds one, is one for the schema. -/
def Visit.FindsAnswer (schema : Schema) (visit : Visit) : Prop :=
  ∀ response, visit.response? = some response → response.Answers schema

namespace ResponseStream

/-- The stream executes operations for the schema, and the response that is being made is one for it. -/
def IsFor (schema : Schema) : ResponseStream → Prop
  | .unstarted schema' _ _ => schema' = schema
  | .answering run => run.EndsInAnswer schema
  | .listening subscription => subscription.ctx.schema = schema
  | .responding subscription run => subscription.ctx.schema = schema ∧ run.EndsInAnswer schema
  | .ended => True

theorem proceed_answers (h : run.EndsInAnswer schema) (hub : PubSub) :
    (proceed hub run).FindsAnswer schema ∧ (proceed hub run).stream.IsFor schema := by
  cases run with
  | finish log response =>
    refine ⟨fun found hfound => ?_, trivial⟩
    obtain rfl := Option.some.inj hfound
    exact h response rfl
  | abort log why => exact ⟨nofun, trivial⟩
  | suspend log rest => exact ⟨nofun, h⟩

theorem subscription_proceed_answers {subscription : Subscription}
    (hschema : subscription.ctx.schema = schema) (h : run.EndsInAnswer schema) (hub : PubSub) :
    (subscription.proceed hub run).FindsAnswer schema ∧
      (subscription.proceed hub run).stream.IsFor schema := by
  cases run with
  | finish log response =>
    refine ⟨fun found hfound => ?_, hschema⟩
    obtain rfl := Option.some.inj hfound
    exact h response rfl
  | abort log why => exact ⟨nofun, trivial⟩
  | suspend log rest => exact ⟨nofun, hschema, h⟩

/-- Events are answered for the schema of their subscription. -/
theorem subscription_poll_answers {subscription : Subscription}
    (hschema : subscription.ctx.schema = schema) (hub : PubSub) :
    (subscription.poll hub).FindsAnswer schema ∧ (subscription.poll hub).stream.IsFor schema := by
  obtain ⟨ctx, path, events⟩ := subscription
  -- Each way in which a visit of the source goes on is answered for the same schema.
  refine poll_listening_induction
    (motive := fun visit => visit.FindsAnswer schema ∧ visit.stream.IsFor schema) ctx path events hub
    (fun _ _ h => h) (fun log message => ?_) (fun _ _ => ⟨nofun, hschema⟩) (fun _ _ => ⟨nofun, trivial⟩)
    (fun _ _ error => ?_) fun events _ payload => ?_
  · exact subscription_proceed_answers hschema (Coroutine.abort_endsInAnswer _ _) _
  · refine ⟨fun found hfound => ?_, hschema⟩
    obtain rfl := Option.some.inj hfound
    exact ctx.errorResponse_answers _
  · have hsubscription : (Subscription.mk ctx path events).ctx.schema = schema := hschema
    have hevent : (ctx.forEvent payload).schema = schema := hschema
    exact subscription_proceed_answers hsubscription (ExecutionContext.respond_endsInAnswer hevent) _

/-- The first visit answers the request, or an event of its subscription. -/
theorem poll_subscribe_answers (hub : PubSub) :
    ((subscribe schema document params).poll hub).FindsAnswer schema ∧
      ((subscribe schema document params).poll hub).stream.IsFor schema := by
  refine poll_subscribe_induction
    (motive := fun visit => visit.FindsAnswer schema ∧ visit.stream.IsFor schema) schema document params
    hub (fun _ _ => proceed_answers (Coroutine.abort_endsInAnswer _ _) hub) (fun errors _ => ?_)
    (fun ctx hbuild _ => ?_) (fun ctx _ _ log error _ => ?_) fun ctx hbuild _ log path source _ => ?_
  · refine proceed_answers (fun response houtcome => ?_) hub
    obtain rfl : Response.requestError errors = response := Except.ok.inj houtcome
    exact .failed rfl
  · exact proceed_answers (ExecutionContext.respond_endsInAnswer (ExecutionContext.of_build hbuild).1) hub
  · refine proceed_answers (fun response houtcome => ?_) hub
    obtain rfl : ctx.errorResponse error = response := Except.ok.inj houtcome
    exact ctx.errorResponse_answers error
  · exact subscription_poll_answers (ExecutionContext.of_build hbuild).1 _

/-- **Every visit finds a response for the schema**, if it finds one, and leaves a stream for it. -/
theorem poll_answers {stream : ResponseStream} (h : stream.IsFor schema) (hub : PubSub) :
    (stream.poll hub).FindsAnswer schema ∧ (stream.poll hub).stream.IsFor schema := by
  cases stream with
  | answering run => exact proceed_answers h hub
  | listening subscription => exact subscription_poll_answers h hub
  | responding subscription run => exact subscription_proceed_answers h.1 h.2 hub
  | ended => exact ⟨nofun, trivial⟩
  | unstarted schema' document params =>
    obtain rfl : schema' = schema := h
    exact poll_subscribe_answers hub

end ResponseStream

end Answers

/-! ### All responses -/

/-- **What is repeated in serialized responses.** Whatever callbacks attach to their errors and whether or
not causes are exposed, in every response to an operation, to a request and to an event
* a key is repeated only where an output of a scalar repeats it or the extensions of an error do;
* every error has one `code`, which is that of the engine;
* causes add no repetition.

So a response whose outputs and extensions are maps repeats no key. -/
theorem responses_repeatAttachedOnly (schema : Schema) :
    (∀ document params response, (execute schema document params).outcome = .ok response →
        response.RepeatsAttachedOnly schema) ∧
      (∀ request response, (schema.answer request).outcome = .ok response →
        response.RepeatsAttachedOnly schema) ∧
      ∀ document params hubs, ∀ visit ∈ (ResponseStream.subscribe schema document params).visits hubs,
        ∀ response, visit.response? = some response → response.RepeatsAttachedOnly schema := by
  refine ⟨fun document params response h => ?_, fun request response h => ?_,
    fun document params hubs visit hmem response hfound => ?_⟩
  · exact (execute_endsInAnswer response h).repeatsAttachedOnly
  · exact (schema.answer_endsInAnswer request response h).repeatsAttachedOnly
  · have hstream : (ResponseStream.subscribe schema document params).IsFor schema := rfl
    have hvisits := ResponseStream.forall_visits_of_poll
      (fun _ hub h => ResponseStream.poll_answers h hub) hstream hubs
    exact (hvisits visit hmem response hfound).repeatsAttachedOnly

/-! ### An extension that is attached twice -/

namespace RetrySample

/-- An error with two extensions of the same name. -/
def failure : ResolverError := ⟨"m", none, [("k", .number (.int 1)), ("k", .number (.int 2))]⟩

def query : ObjectType where
  name := "Query"
  description := none
  fields := .ofList [⟨"a", none, .named "Int", .empty⟩]
  interfaces := []
  isTypeOf := none

/-- A field that fails with the error. -/
def builder : SchemaBuilder :=
  (SchemaBuilder.new "Query" none none).register
    ⟨.object query, ⟨[("a", ⟨some fun _ => .returned [] (.err failure), none⟩)], none⟩⟩

/-- The schema that the builder makes. -/
def schema : Schema := builder.finish.toOption.getD ⟨⟨[], "", none, none, []⟩, [], .standard⟩

def document : Document :=
  ⟨.anonymous ⟨.query, [], [], [.field ⟨none, "a", [], [], [], ⟨1, 3⟩⟩], ⟨1, 1⟩⟩, []⟩

theorem finish_eq : builder.finish = .ok schema := rfl

theorem parse_eq : Document.parse "{ a }" = .ok document :=
  Document.parse_eq_of_outline? ⟨.query, [], ("a", 3), []⟩ (by decide +kernel)

end RetrySample

/-- The response of the sample repeats what is attached to its error, and nothing else. -/
theorem responses_repeatAttachedOnly_sample :
    ∃ response, (execute RetrySample.schema RetrySample.document {}).outcome = .ok response ∧
      response.RepeatsAttachedOnly RetrySample.schema ∧
      response.errors.map GraphQLError.extensions = [RetrySample.failure.extensions] := by
  obtain ⟨hexecuted, -, -⟩ := responses_repeatAttachedOnly RetrySample.schema
  exact ⟨_, rfl, hexecuted RetrySample.document {} _ rfl, rfl⟩

/-- Both extensions of the same name are written out, side by side. -/
theorem extension_repeated :
    RetrySample.builder.finish = .ok RetrySample.schema ∧
    Document.parse "{ a }" = .ok RetrySample.document ∧
    ∃ response, (execute RetrySample.schema RetrySample.document {}).outcome = .ok response ∧
      response.errors.map GraphQLError.visibleExtensions =
        [[("k", .number (.int 1)), ("k", .number (.int 2)), ("code", .string "RESOLVER_ERROR")]] ∧
      ¬ response.toJson.HasDistinctKeys := by
  refine ⟨RetrySample.finish_eq, RetrySample.parse_eq, _, rfl, rfl, fun h => ?_⟩
  obtain ⟨-, herrors⟩ := Response.hasDistinctKeys_iff.mp h
  have hkeys := (herrors _ List.mem_cons_self).keys
  change ["k", "k"].Nodup at hkeys
  exact absurd hkeys (by decide)

end GraphQL
