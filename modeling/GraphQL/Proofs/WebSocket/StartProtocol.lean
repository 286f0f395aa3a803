import GraphQL.Proofs.Subscription.Panics
import GraphQL.Proofs.Subscription.PointwiseImage
import GraphQL.Proofs.Subscription.RequestErrors
import GraphQL.WebSocket.Session

/-!
# How an operation is answered over a websocket

The session takes the responses to an operation from their stream until one of them says that nothing is
executed. That can only be the first one, so it either cuts off nothing or has nothing after it.

That it can only be the first one is an invariant of streams. A response says that nothing is executed only
if it is made of a request that is refused, or of a subscription without a field to subscribe to, and both
are found out in the first visit. All other errors are those of fields, of resolvers and of event sources,
none of which has such a code. Hence a stream either fails at once or executes something for ever
(`ResponseStream.IsExecuting`), and in the second case the session and a client that takes everything get the
same transcript.

* `ResponseStream.failsAtOnce_or_isExecuting` — nothing is executed for a request that is refused or has no
  field to subscribe to, and for no other one;
* `ResponseStream.source_of_waiting` — only a subscription to publications waits for more;
* `ResponseStream.panic_of_collect` — which panics end a transcript;
* `WebSocket.start_is_answered` — the messages that answer the start of an operation.
-/

namespace GraphQL

variable {schema : Schema} {request : Request} {document : Document} {params : ExecutionParams}
  {ctx : ExecutionContext} {hub : PubSub}

/-! ### Why nothing is executed -/

/-- The request is refused. -/
def Request.IsRefused (schema : Schema) (request : Request) : Prop :=
  Refused schema.types schema.config.maxVariableErrors request.query request.operationName request.vars

/-- The request is for a subscription that can be executed, and selects no field to subscribe to. -/
def Request.SubscribesToNothing (schema : Schema) (request : Request) : Prop :=
  ∃ document ctx, Document.parse request.query = .ok document ∧
    ExecutionContext.build schema document request.params = .ok (.ok ctx) ∧
      ctx.operation.type = .subscription ∧ ctx.SubscribesToNothing

namespace ResponseStream

theorem responses_of_parse (h : Document.parse request.query = .ok document) :
    schema.responses request = subscribe schema document request.params := by
  unfold Schema.responses Request.document
  rw [h]
  rfl

/-- A text that is no document has a single response, which says so. -/
theorem responses_of_parse_error (schema : Schema) {error : DocumentError}
    (h : Document.parse request.query = .error error) :
    ∃ response : Response, response.isRequestError = true ∧ schema.responses request = single response := by
  unfold Schema.responses Request.document
  rw [h]
  exact ⟨_, rfl, rfl⟩

/-- Of a document nothing is executed if the request is refused or has nothing to subscribe to. -/
theorem nothingToExecute_iff (h : Document.parse request.query = .ok document) :
    NothingToExecute schema document request.params ↔
      request.IsRefused schema ∨ request.SubscribesToNothing schema := by
  -- The text has one document, so that to refuse the text is to refuse the document.
  have hrefused : request.IsRefused schema ↔
      ∃ errors, ExecutionContext.build schema document request.params = .ok (.error errors) := by
    rw [← refused_iff_of_parse h]
    exact Iff.rfl
  refine or_congr hrefused.symm ⟨?_, ?_⟩
  · rintro ⟨ctx, hbuild, htype, hnothing⟩
    exact ⟨document, ctx, h, hbuild, htype, hnothing⟩
  · rintro ⟨other, ctx, hother, hbuild, htype, hnothing⟩
    obtain rfl := Except.ok.inj (hother.symm.trans h)
    exact ⟨ctx, hbuild, htype, hnothing⟩

/-- **The responses to a request start in one of two ways.** -/
theorem failsAtOnce_or_isExecuting (schema : Schema) (request : Request) (hub : PubSub) :
    (request.IsRefused schema ∨ request.SubscribesToNothing schema) ∧
        (schema.responses request).FailsAtOnce hub ∨
      ¬ (request.IsRefused schema ∨ request.SubscribesToNothing schema) ∧
        (schema.responses request).IsExecuting := by
  cases hparse : Document.parse request.query with
  | error error =>
    obtain ⟨response, hfatal, hsingle⟩ := responses_of_parse_error schema hparse
    exact .inl ⟨.inl (.parsing hparse), hsingle ▸ failsAtOnce_single hfatal hub⟩
  | ok document =>
    rw [← nothingToExecute_iff hparse, responses_of_parse hparse]
    by_cases h : NothingToExecute schema document request.params
    · exact .inl ⟨h, failsAtOnce_subscribe h hub⟩
    · exact .inr ⟨h, h⟩

/-! ### Why a transcript ends -/

/-- Where a single response is made, nothing is waited for. -/
theorem ending_of_poll_proceed {stream : ResponseStream} {run : Run Response}
    (h : stream.poll hub = proceed hub run) (hunstarted : 0 < (stream.distance hub).1) :
    (collect everything stream hub).ending ≠ .waiting := by
  have hgoesOn := goesOn_answering hub run
  have hfirst : stream.poll hub = ((answering run).poll hub).prepend [] := h
  rw [collect, collectFrom_of_prepend hfirst hgoesOn (hgoesOn.of_lt hunstarted),
    collectFrom_answering]
  cases run.outcome <;> exact Ending.noConfusion

/-- Replies to events end with the events, or break down. -/
theorem ending_replies (path : QueryPath) (events : List Occurrence) :
    (ctx.replies path events).2 ≠ .waiting := by
  induction events with
  | nil => exact Ending.noConfusion
  | cons event rest ih =>
    rw [ExecutionContext.replies]
    cases ctx.answerTo path event with
    | error why => exact Ending.noConfusion
    | ok response => exact ih

/-- **Only subscriptions to publications wait for more**: the source of any other one ends. The
cases are those of the first visit: a single run comes to its end, and so does a source with a
script, all of whose events are there. -/
theorem source_of_waiting
    (h : (collect everything (subscribe schema document params) hub).ending = .waiting) :
    ∃ ctx texts path source, ExecutionContext.build schema document params = .ok (.ok ctx) ∧
      ctx.operation.type = .subscription ∧
        ctx.eventSource = .ok (.returned texts (.ok (path, source))) ∧ source.events? = none := by
  have hunstarted : 0 < ((subscribe schema document params).distance hub).1 := Nat.one_pos
  -- A stream that only runs something comes to its end.
  have hstarted {run : Run Response}
      (hpoll : (subscribe schema document params).poll hub = proceed hub run) : False :=
    ending_of_poll_proceed hpoll hunstarted h
  -- Whatever comes before the source is opened is such a run.
  refine poll_subscribe_induction
    (motive := fun visit => (subscribe schema document params).poll hub = visit →
      ∃ ctx texts path source, ExecutionContext.build schema document params = .ok (.ok ctx) ∧
        ctx.operation.type = .subscription ∧
          ctx.eventSource = .ok (.returned texts (.ok (path, source))) ∧ source.events? = none)
    schema document params hub (fun _ _ hpoll => (hstarted hpoll).elim)
    (fun _ _ hpoll => (hstarted hpoll).elim)
    (fun _ _ _ hpoll => (hstarted hpoll).elim) (fun _ _ _ _ _ _ hpoll => (hstarted hpoll).elim)
    (fun ctx hbuild htype texts path source hsource _ => ?_) rfl
  refine ⟨ctx, texts, path, source, hbuild, htype, hsource, ?_⟩
  -- The events of a source with a script are all there, so that the stream of one ends.
  rw [source.events?_eq, Option.map_eq_none_iff]
  refine Option.eq_none_iff_forall_ne_some.mpr fun script hscript => ?_
  obtain ⟨log, hcollect⟩ := collect_script hub hbuild htype hsource hscript
  rw [hcollect] at h
  exact ending_replies path _ h

/-! ### Why a transcript breaks down -/

/-- **A transcript that panics** does so for a variable with too many lists, for the subscriber or for the
source, if panics of resolvers are caught and the callbacks that tell object types apart return. -/
theorem panic_of_collect {builder : SchemaBuilder} {message : String} (hfinish : builder.finish = .ok schema)
    (hcallbacks : schema.CallbacksReturn params.typeResolver)
    (hcatch : schema.config.catchResolverPanics = true) (hhub : hub.Consistent)
    (h : (collect everything (subscribe schema document params) hub).ending =
      .aborted (.panicked message)) :
    (message = Wrapping.overflowMessage ∧ TypeOverflow schema document params) ∨
      SubscriberPanics schema document params message ∨ SourcePanics schema document params message := by
  have hrun : (subscribe schema document params).IsRun hub []
      (collect everything (subscribe schema document params) hub) := isRun_collectFrom everything
  obtain ⟨hubs, -, haborted, hhubs⟩ := hrun
  obtain ⟨visit, hmem, hpanics⟩ := haborted _ h
  exact of_visits_panicked hfinish hcallbacks hcatch (hhubs hhub) hmem hpanics

end ResponseStream

namespace WebSocket

open ResponseStream

/-- The session takes responses until one says that nothing is executed. -/
theorem handleMessage_start (id : String) :
    handleMessage schema (.start id request) hub =
      let transcript := collect untilRequestError (schema.responses request) hub
      ⟨transcript.log, transcript.responses.map (responseMessage id) ++
        (match transcript.ending with
          | .ended | .satisfied => [.complete id]
          | .waiting | .aborted _ => []), transcript.ending, transcript.hub⟩ := rfl

/-- Where nothing is executed, there is one error, and the operation is complete. -/
theorem reply_of_failsAtOnce (h : (schema.responses request).FailsAtOnce hub) (id : String) :
    ∃ response, response.isRequestError = true ∧
      (collect everything (schema.responses request) hub).responses = [response] ∧
      (collect everything (schema.responses request) hub).ending = .ended ∧
      (handleMessage schema (.start id request) hub).ending = .satisfied ∧
      (handleMessage schema (.start id request) hub).messages =
        [.error id response.errors, .complete id] := by
  obtain ⟨log, response, hfatal, hevery, huntil⟩ := collect_of_failsAtOnce h
  refine ⟨response, hfatal, by rw [hevery], by rw [hevery], ?_, ?_⟩
  · rw [handleMessage_start, huntil]
  · rw [handleMessage_start, huntil]
    simp [responseMessage, hfatal]

/-- Where something is executed, the responses are all sent. -/
theorem reply_of_isExecuting (h : (schema.responses request).IsExecuting) (hub : PubSub)
    (id : String) :
    let transcript := collect everything (schema.responses request) hub
    let reply := handleMessage schema (.start id request) hub
    (∀ response ∈ transcript.responses, response.isRequestError = false) ∧
      reply.ending = transcript.ending ∧ reply.ending ≠ .satisfied ∧
      reply.messages = transcript.responses.map (.data id) ++
        (if transcript.ending = .ended then [.complete id] else []) := by
  intro transcript reply
  obtain ⟨huntil, hexecuted⟩ := collect_of_isExecuting h hub
  -- Whoever wants everything is never satisfied, so that the stream ends in one of the other ways.
  have hunsatisfied : transcript.ending ≠ .satisfied := ending_collectFrom_ne_satisfied
  have hdata : transcript.responses.map (responseMessage id) = transcript.responses.map (.data id) :=
    -- No response says that nothing is executed, so that each of them is sent as data.
    List.map_congr_left fun response hmem => by simp [responseMessage, hexecuted response hmem]
  have hreply : reply = ⟨transcript.log, transcript.responses.map (responseMessage id) ++
      (match transcript.ending with
        | .ended | .satisfied => [.complete id]
        | .waiting | .aborted _ => []), transcript.ending, transcript.hub⟩ := by
    simp only [reply]
    rw [handleMessage_start, huntil]
  refine ⟨hexecuted, by rw [hreply], by rw [hreply]; exact hunsatisfied, ?_⟩
  rw [hreply, hdata]
  cases hending : transcript.ending with
  | satisfied => exact absurd hending hunsatisfied
  | ended | waiting | aborted why => simp

/-- **The answer to the start of an operation.** The responses to the operation are those of its stream,
visited as long as nothing has to be published for it.

* Either no response says that nothing is executed. Then there is one `data` message per response, in
  order, and after the last one a `complete`, unless the stream breaks down or waits for publications.
* Or the only response says so. Then there is one `error` message with its errors, and a `complete`.

All messages have the id of the client. The second form is that of a request that is refused or has no
field to subscribe to, and of no other one. Only a subscription to publications waits for more. With
callbacks that return, the only panics are those of types with too many lists, of subscribers and of event
sources with their filters. -/
theorem start_is_answered (schema : Schema) (id : String) (request : Request) (hub : PubSub) :
    let transcript := (schema.responses request).collect everything hub
    let reply := handleMessage schema (.start id request) hub
    ((∀ response ∈ transcript.responses, response.isRequestError = false) ∧
        reply.ending = transcript.ending ∧ reply.ending ≠ .satisfied ∧
        reply.messages = transcript.responses.map (.data id) ++
          (if transcript.ending = .ended then [.complete id] else []) ∨
      ∃ response, response.isRequestError = true ∧ transcript.responses = [response] ∧
        transcript.ending = .ended ∧ reply.ending = .satisfied ∧
        reply.messages = [.error id response.errors, .complete id]) ∧
    ((∃ first, transcript.responses.head? = some first ∧ first.isRequestError = true) ↔
      request.IsRefused schema ∨ request.SubscribesToNothing schema) ∧
    (∀ response ∈ transcript.responses.tail, response.isRequestError = false) ∧
    (transcript.ending = .waiting → ∃ document ctx texts path source,
      Document.parse request.query = .ok document ∧
        ExecutionContext.build schema document request.params = .ok (.ok ctx) ∧
          ctx.operation.type = .subscription ∧
            ctx.eventSource = .ok (.returned texts (.ok (path, source))) ∧ source.events? = none) ∧
    ((∃ builder : SchemaBuilder, builder.finish = .ok schema) →
      schema.CallbacksReturn request.params.typeResolver → schema.config.catchResolverPanics = true →
      hub.Consistent → ∀ message, transcript.ending = .aborted (.panicked message) →
        ∃ document, Document.parse request.query = .ok document ∧
          ((message = Wrapping.overflowMessage ∧ TypeOverflow schema document request.params) ∨
            SubscriberPanics schema document request.params message ∨
              SourcePanics schema document request.params message)) := by
  intro transcript reply
  -- A stream that does not come to its end is that of a document.
  have hdocument (hended : transcript.ending ≠ .ended) : ∃ document,
      Document.parse request.query = .ok document ∧
        transcript = collect everything (subscribe schema document request.params) hub := by
    cases hparse : Document.parse request.query with
    | ok document => exact ⟨document, rfl, by rw [← responses_of_parse hparse]⟩
    | error error =>
      obtain ⟨response, hfatal, hsingle⟩ := responses_of_parse_error schema hparse
      have hfails := hsingle ▸ failsAtOnce_single hfatal hub
      obtain ⟨-, -, -, hending, -⟩ := reply_of_failsAtOnce hfails id
      exact absurd hending hended
  -- Who waits has a source without a script.
  have hwaits (hwaiting : transcript.ending = .waiting) : ∃ document ctx texts path source,
      Document.parse request.query = .ok document ∧
        ExecutionContext.build schema document request.params = .ok (.ok ctx) ∧
          ctx.operation.type = .subscription ∧
            ctx.eventSource = .ok (.returned texts (.ok (path, source))) ∧ source.events? = none := by
    obtain ⟨document, hparse, htranscript⟩ := hdocument (by rw [hwaiting]; exact nofun)
    obtain ⟨ctx, texts, path, source, hsource⟩ := source_of_waiting (htranscript ▸ hwaiting)
    exact ⟨document, ctx, texts, path, source, hparse, hsource⟩
  -- Who panics has a visit that does, and only the named callbacks can make one.
  have hpanics (hfinish : ∃ builder : SchemaBuilder, builder.finish = .ok schema)
      (hcallbacks : schema.CallbacksReturn request.params.typeResolver)
      (hcatch : schema.config.catchResolverPanics = true) (hhub : hub.Consistent) (message : String)
      (haborted : transcript.ending = .aborted (.panicked message)) :
      ∃ document, Document.parse request.query = .ok document ∧
        ((message = Wrapping.overflowMessage ∧ TypeOverflow schema document request.params) ∨
          SubscriberPanics schema document request.params message ∨
            SourcePanics schema document request.params message) := by
    obtain ⟨document, hparse, htranscript⟩ := hdocument (by rw [haborted]; exact nofun)
    obtain ⟨builder, hfinish⟩ := hfinish
    exact ⟨document, hparse, panic_of_collect hfinish hcallbacks hcatch hhub (htranscript ▸ haborted)⟩
  -- The first response decides for both clients which of the two forms the answer has.
  rcases failsAtOnce_or_isExecuting schema request hub with ⟨hnothing, hfails⟩ | ⟨hsome, hexecuting⟩
  · obtain ⟨response, hfatal, hresponses, hreply⟩ := reply_of_failsAtOnce hfails id
    refine ⟨.inr ⟨response, hfatal, hresponses, hreply⟩, iff_of_true ?_ hnothing, ?_, hwaits, hpanics⟩
    -- The only response says that nothing is executed.
    · exact ⟨response, by rw [hresponses, List.head?_cons], hfatal⟩
    -- It is the only one.
    · rw [hresponses]
      exact fun _ hmem => absurd hmem List.not_mem_nil
  · obtain ⟨hexecuted, hreply⟩ := reply_of_isExecuting hexecuting hub id
    refine ⟨.inl ⟨hexecuted, hreply⟩, iff_of_false ?_ hsome, ?_, hwaits, hpanics⟩
    -- A first response that says so would be one of those that do not.
    · rintro ⟨first, hfirst, hfatal⟩
      exact absurd ((hexecuted first (List.mem_of_head? hfirst)).symm.trans hfatal) (by decide)
    · exact fun response hmem => hexecuted response (List.mem_of_mem_tail hmem)

theorem parse_hours : Document.parse "subscription { hours }" =
    .ok (TickSample.document .subscription [] "hours" 16) :=
  Document.parse_eq_of_outline? ⟨.subscription, [], ("hours", 16), []⟩ (by decide +kernel)

open TickSample in
/-- Odd ticks are sent one by one, the error among them too. A field that is not defined cannot be
subscribed to. -/
theorem start_is_answered_sample :
    (handleMessage (TickSample.schema oddTicks) (.start "1" (.ofQuery "subscription { ticks }"))
        .empty).messages =
      [.data "1" (tick 1), .data "1" lost, .data "1" (tick 3), .complete "1"] ∧
    ∃ errors, (handleMessage (TickSample.schema oddTicks)
      (.start "2" (.ofQuery "subscription { hours }")) .empty).messages =
        [.error "2" errors, .complete "2"] := by
  constructor
  · have hreplies : oddOpening.ctx.Answers oddOpening.path
        [.event (.ok (.plain (.number (.int 1)))), .event (.error (.new "lost")),
          .event (.ok (.plain (.number (.int 3))))]
        [tick 1, lost, tick 3] := .cons rfl (.cons rfl (.cons rfl .nil))
    -- The stream of the ticks is collected event by event.
    obtain ⟨log, hcollect⟩ := oddOpening.isPointwiseImage.replies .empty rfl hreplies
    have hresponses : (TickSample.schema oddTicks).responses (.ofQuery "subscription { ticks }") =
      subscribe (TickSample.schema oddTicks) ticks {} := responses_of_parse parse_ticks
    obtain ⟨hforms, -⟩ := start_is_answered (TickSample.schema oddTicks) "1"
      (.ofQuery "subscription { ticks }") .empty
    rw [hresponses, hcollect] at hforms
    rcases hforms with ⟨-, -, -, hmessages⟩ | ⟨response, -, hone, -⟩
    -- The answer has the first form, as there are three responses.
    · exact hmessages
    · exact absurd (List.cons.inj hone).2 (List.cons_ne_nil _ _)
  · have hnothing : (Request.ofQuery "subscription { hours }").SubscribesToNothing
        (TickSample.schema oddTicks) := by
      -- The field of the subscription is not one of its root type.
      refine ⟨_, _, parse_hours, rfl, rfl, fun root key node nodes others hroot hcollected => ?_⟩
      obtain rfl : subscription = root := Option.some.inj hroot
      obtain ⟨hgroup, -⟩ := List.cons.inj hcollected
      obtain ⟨rfl, -⟩ := List.cons.inj (Prod.mk.inj hgroup).2
      rfl
    obtain ⟨hforms, hiff, -⟩ := start_is_answered (TickSample.schema oddTicks) "2"
      (.ofQuery "subscription { hours }") .empty
    obtain ⟨first, hfirst, hfatal⟩ := hiff.mpr (.inr hnothing)
    -- The answer has the second form, as the first response says so.
    rcases hforms with ⟨hexecuted, -⟩ | ⟨response, -, -, -, -, hmessages⟩
    · exact absurd ((hexecuted first (List.mem_of_head? hfirst)).symm.trans hfatal) (by decide)
    · exact ⟨response.errors, hmessages⟩

end WebSocket

end GraphQL
