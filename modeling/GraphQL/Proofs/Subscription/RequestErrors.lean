import GraphQL.Proofs.Execution.BadRequests
import GraphQL.Proofs.Execution.NullPropagation
import GraphQL.Proofs.Subscription.Opening
import GraphQL.Proofs.Subscription.Release
import GraphQL.Proofs.Subscription.Transcripts

/-!
# Responses that say that nothing was executed

Only the first response of a stream can say that the operation is not executed, and then it is the only
one. Any other response is that of an execution, or reports an error of the subscriber or of an event,
none of which says anything about the request.

* `NothingToExecute` — the request is refused, or has no defined field to subscribe to;
* `ResponseStream.IsExecuting`, `ResponseStream.poll_isExecuting` — otherwise no response says that nothing
  is executed, which every visit preserves;
* `ResponseStream.failsAtOnce_subscribe` — where there is nothing to execute, the first visit says so;
* `ResponseStream.isRun_collectFrom` — a transcript is a run of its stream;
* `ResponseStream.collect_of_isExecuting`, `ResponseStream.collect_of_failsAtOnce` — so a client that gives
  up at such a response gives up at the first one or not at all.
-/

namespace GraphQL

variable {schema : Schema} {document : Document} {params : ExecutionParams} {ctx : ExecutionContext}
  {hub : PubSub}

/-! ### The errors of a subscription -/

theorem GraphQLError.isRequestFatal_exposeCause (error : GraphQLError) :
    error.exposeCause.isRequestFatal = error.isRequestFatal :=
  congrArg (fun report => report.2.1.isRequestFatal) error.report_exposeCause

theorem Response.isRequestError_eq_false_iff {response : Response} :
    response.isRequestError = false ↔ ∀ error ∈ response.errors, error.isRequestFatal = false := by
  simp [Response.isRequestError]

namespace ExecutionContext

/-- A response without data says that nothing is executed if its error does. -/
theorem isRequestError_errorResponse (error : GraphQLError) :
    (ctx.errorResponse error).isRequestError = error.isRequestFatal := by
  unfold errorResponse Response.withExposedCauses Response.isRequestError
  split
  · simp [error.isRequestFatal_exposeCause]
  · simp

/-- An execution does not say that nothing is executed. -/
theorem isRequestError_respond {response : Response} (h : ctx.respond.outcome = .ok response) :
    response.isRequestError = false :=
  Response.isRequestError_eq_false_iff.mpr fun error hmem => (ctx.errors_of_fields h error hmem).2

/-- No field of the root type is selected first that the type defines. -/
def SubscribesToNothing (ctx : ExecutionContext) : Prop :=
  ∀ root key node nodes others, ctx.rootType? = some root →
    ctx.collectFields root [ctx.operation.selections] = (key, node :: nodes) :: others →
    root.field? node.name = none

/-- The error of a field that is not defined says that nothing is executed, and no other error about
the subscriber does. The cases follow the call: coerced arguments, a missing subscriber, and the
error of the subscriber each have a code of their own. -/
theorem isRequestFatal_of_callSubscriber {root : ObjectType} {key : String} {node : Field}
    {nodes : List Field} {log : List String} {error : GraphQLError}
    (h : ctx.callSubscriber root key node nodes = .ok (.returned log (.error error))) :
    error.isRequestFatal = true ↔ root.field? node.name = none := by
  rw [callSubscriber] at h
  cases hdefinition : root.field? node.name with
  | none =>
    simp only [hdefinition] at h
    obtain ⟨-, herror⟩ := Call.returned.inj (Except.ok.inj h)
    obtain rfl := Except.error.inj herror
    exact iff_of_true rfl rfl
  | some definition =>
    -- The field is defined, so that the error has to be another one: each way to fail has its own
    -- code.
    refine iff_of_false (fun hfatal => ?_) (by simp)
    simp only [hdefinition] at h
    cases hsubscriber : (ctx.schema.fieldHooks root.name node.name).subscriber with
    | none =>
      simp only [hsubscriber] at h
      obtain ⟨-, herror⟩ := Call.returned.inj (Except.ok.inj h)
      obtain rfl := Except.error.inj herror
      exact Bool.false_ne_true hfatal
    | some subscriber =>
      simp only [hsubscriber] at h
      -- The arguments come before the subscriber is called.
      cases harguments : Coercion.coerceArguments ctx.schema.types definition node ctx.vars with
      | error failure =>
        simp only [harguments] at h
        cases failure with
        | endless => cases h
        | invalid invalid =>
          obtain ⟨-, herror⟩ := Call.returned.inj (Except.ok.inj h)
          obtain rfl := Except.error.inj herror
          have hcode : invalid.code = .argumentError := Coercion.code_of_coerceArguments harguments
          rw [GraphQLError.isRequestFatal, GraphQLError.withPath, hcode] at hfatal
          exact Bool.false_ne_true hfatal
      | ok arguments =>
        simp only [harguments] at h
        -- At last the subscriber itself, which is free in its error but not in the code of it.
        cases hcall : subscriber ⟨ctx.rootValue, arguments,
            ctx.resolveInfo root definition node.name nodes (QueryPath.empty.field key root.name),
            ctx.context⟩ with
        | panicked log' message =>
          rw [hcall] at h
          cases h
        | returned log' result =>
          rw [hcall] at h
          cases result with
          | ok source =>
            obtain ⟨-, herror⟩ := Call.returned.inj (Except.ok.inj h)
            cases herror
          | error failed =>
            obtain ⟨-, herror⟩ := Call.returned.inj (Except.ok.inj h)
            obtain rfl := Except.error.inj herror
            exact Bool.false_ne_true hfatal

/-- **Why a subscription is not opened.** The error says that nothing is executed exactly if there is no
field to subscribe to. -/
theorem isRequestFatal_of_eventSource {log : List String} {error : GraphQLError}
    (h : ctx.eventSource = .ok (.returned log (.error error))) :
    error.isRequestFatal = true ↔ ctx.SubscribesToNothing := by
  rw [eventSource] at h
  cases hroot : ctx.rootType? with
  | none =>
    rw [hroot] at h
    cases h
  | some root =>
    rcases hcollected : ctx.collectFields root [ctx.operation.selections]
      with _ | ⟨⟨key, _ | ⟨node, nodes⟩⟩, others⟩ <;> simp only [hroot, hcollected] at h
    · -- No field is collected: nothing is executed, and there is nothing to subscribe to.
      obtain ⟨-, herror⟩ := Call.returned.inj (Except.ok.inj h)
      obtain rfl := Except.error.inj herror
      refine iff_of_true rfl fun root' key node nodes others hsome hfirst => ?_
      obtain rfl := Option.some.inj (hroot.symm.trans hsome)
      cases hcollected.symm.trans hfirst
    · cases h
    · -- The first field decides: only one that the type does not define is nothing to subscribe to.
      refine (isRequestFatal_of_callSubscriber h).trans ⟨fun hundefined => ?_, fun hnone => ?_⟩
      · intro root' key' node' nodes' others' hsome hfirst
        obtain rfl := Option.some.inj (hroot.symm.trans hsome)
        obtain ⟨hgroup, -⟩ := List.cons.inj (hcollected.symm.trans hfirst)
        obtain ⟨rfl, -⟩ := List.cons.inj (Prod.mk.inj hgroup).2
        exact hundefined
      · exact hnone root key node nodes others hroot hcollected

/-- Without a field to subscribe to, there is an error at once. -/
theorem exists_eventSource_of_subscribesToNothing {root : ObjectType} (hroot : ctx.rootType? = some root)
    (h : ctx.SubscribesToNothing) : ∃ error, ctx.eventSource = .ok (.returned [] (.error error)) := by
  rcases eventSource_cases hroot with ⟨⟨field⟩⟩ | hendless | herror
  -- A field to subscribe to is one that is defined, which the hypothesis excludes.
  · have hundefined := h _ _ _ _ _ field.rootType field.collected
    cases hundefined.symm.trans field.defined
  -- An endless coercion is found only in the arguments of a field that is defined.
  · rw [eventSource] at hendless ⊢
    rcases hcollected : ctx.collectFields root [ctx.operation.selections]
      with _ | ⟨⟨key, _ | ⟨node, nodes⟩⟩, others⟩ <;>
        simp only [hroot, hcollected] at hendless ⊢
    · cases hendless
    · cases hendless
    · have hundefined := h root key node nodes others hroot hcollected
      simp only [callSubscriber, hundefined]
      exact ⟨_, rfl⟩
  · exact herror

end ExecutionContext

/-! ### Requests that are refused -/

/-- A request is refused if it selects no operation, or if its variables are not accepted. -/
theorem ExecutionContext.build_eq_error_iff {errors : List GraphQLError} :
    build schema document params = .ok (.error errors) ↔
      (∃ error, select schema document params.operationName = .error error ∧
        errors = [error.toGraphQLError]) ∨
      ∃ operation, select schema document params.operationName = .ok operation ∧
        Coercion.coerceVariables schema.types schema.config.maxVariableErrors
          operation.variableDefinitions params.vars = .ok (.error errors) := by
  rw [build]
  cases select schema document params.operationName with
  | error error => simp [eq_comm]
  | ok operation =>
    -- Selected is the operation, so that only its variables are left to be refused.
    simp only [reduceCtorEq, false_and, exists_false, false_or, Except.ok.injEq, exists_eq_left']
    cases Coercion.coerceVariables schema.types schema.config.maxVariableErrors
        operation.variableDefinitions params.vars with
    | error why => simp [bind, Except.bind]
    | ok coerced =>
      cases coerced with
      | error found => simp [bind, Except.bind, pure, Except.pure, Except.map]
      | ok vars => simp [bind, Except.bind, pure, Except.pure, Except.map]

/-- A document is refused with the text that it is read from. A text has one document at most, so
the reasons to refuse the text that come after reading it are those for which no context is built.
-/
theorem refused_iff_of_parse {text : String} (hparse : Document.parse text = .ok document) :
    Refused schema.types schema.config.maxVariableErrors text params.operationName params.vars ↔
      ∃ errors, ExecutionContext.build schema document params = .ok (.error errors) := by
  simp only [ExecutionContext.build_eq_error_iff]
  constructor
  · intro h
    have hsame {other : Document} (hother : Document.parse text = .ok other) : other = document :=
      -- The text has one document only.
      Except.ok.inj (hother.symm.trans hparse)
    cases h with
    | parsing h => exact nomatch h.symm.trans hparse
    -- Each way to refuse the text is one of the two ways to refuse the document.
    | selection hparse' h =>
      obtain rfl := hsame hparse'
      exact ⟨_, .inl ⟨_, ExecutionContext.select_of_error h, rfl⟩⟩
    | unsupported hparse' hselect h =>
      obtain rfl := hsame hparse'
      exact ⟨_, .inl ⟨_, ExecutionContext.select_of_unsupported hselect h, rfl⟩⟩
    | coercion hparse' hselect hsupports h =>
      obtain rfl := hsame hparse'
      exact ⟨_, .inr ⟨_, ExecutionContext.select_of_supports hselect hsupports, h⟩⟩
  · rintro ⟨errors, h⟩
    -- What refused the document tells at which step its text is refused.
    cases hselect : ExecutionContext.selectOperation document.operations params.operationName with
    | error error => exact .selection hparse hselect
    | ok operation =>
      cases hsupports : ExecutionContext.supports schema.types operation.type with
      | false => exact .unsupported hparse hselect hsupports
      | true =>
        rw [ExecutionContext.select_of_supports hselect hsupports] at h
        rcases h with ⟨error, herror, -⟩ | ⟨other, hother, hcoerce⟩
        · exact nomatch herror
        · obtain rfl := Except.ok.inj hother
          exact .coercion hparse hselect hsupports hcoerce

/-- The errors of a request that is refused say so. -/
theorem isRequestError_of_build {errors : List GraphQLError}
    (h : ExecutionContext.build schema document params = .ok (.error errors)) :
    (Response.requestError errors).isRequestError = true := by
  suffices hsome : ∃ error ∈ errors, error.isRequestFatal = true from List.any_eq_true.mpr hsome
  rcases ExecutionContext.build_eq_error_iff.mp h with ⟨error, -, rfl⟩ | ⟨operation, -, hcoerce⟩
  · exact ⟨_, List.mem_singleton_self _, error.isOfRequest.fatal⟩
  · obtain ⟨hsome, hall⟩ := Coercion.coerceVariables_isOfRequest hcoerce
    obtain ⟨error, hmem⟩ := List.exists_mem_of_ne_nil errors hsome
    exact ⟨error, hmem, (hall error hmem).fatal⟩

/-- Nothing is executed for the operation: the request is refused, or there is no field to subscribe
to. -/
def NothingToExecute (schema : Schema) (document : Document) (params : ExecutionParams) : Prop :=
  (∃ errors, ExecutionContext.build schema document params = .ok (.error errors)) ∨
    ∃ ctx, ExecutionContext.build schema document params = .ok (.ok ctx) ∧
      ctx.operation.type = .subscription ∧ ctx.SubscribesToNothing

/-- The visit does not find a response that says that nothing is executed. -/
def Visit.FindsExecuted (visit : Visit) : Prop :=
  ∀ response, visit.response? = some response → response.isRequestError = false

namespace ResponseStream

/-! ### Streams that execute something -/

/-- No response that is still to come says that nothing is executed. -/
def IsExecuting : ResponseStream → Prop
  | .unstarted schema document params => ¬ NothingToExecute schema document params
  | .answering run | .responding _ run =>
      ∀ response, run.outcome = .ok response → response.isRequestError = false
  | .listening _ | .ended => True

theorem proceed_isExecuting {run : Run Response}
    (h : ∀ response, run.outcome = .ok response → response.isRequestError = false) (hub : PubSub) :
    (proceed hub run).FindsExecuted ∧ (proceed hub run).stream.IsExecuting := by
  cases run with
  | finish log response =>
    refine ⟨fun found hfound => ?_, trivial⟩
    obtain rfl := Option.some.inj hfound
    exact h _ rfl
  | abort log why => exact ⟨nofun, trivial⟩
  | suspend log rest => exact ⟨nofun, h⟩

theorem subscription_proceed_isExecuting {subscription : Subscription} {run : Run Response}
    (h : ∀ response, run.outcome = .ok response → response.isRequestError = false) (hub : PubSub) :
    (subscription.proceed hub run).FindsExecuted ∧
      (subscription.proceed hub run).stream.IsExecuting := by
  cases run with
  | finish log response =>
    refine ⟨fun found hfound => ?_, trivial⟩
    obtain rfl := Option.some.inj hfound
    exact h _ rfl
  | abort log why => exact ⟨nofun, trivial⟩
  | suspend log rest => exact ⟨nofun, h⟩

theorem listening_isExecuting (subscription : Subscription) (hub : PubSub) :
    (subscription.poll hub).FindsExecuted ∧ (subscription.poll hub).stream.IsExecuting := by
  obtain ⟨ctx, path, events⟩ := subscription
  refine poll_listening_induction
    (motive := fun visit => visit.FindsExecuted ∧ visit.stream.IsExecuting) ctx path events hub
    (fun _ _ h => h) (fun log message => ?_) (fun _ _ => ⟨nofun, trivial⟩) (fun _ _ => ⟨nofun, trivial⟩)
    (fun _ _ error => ?_) fun _ _ payload => ?_
  · refine subscription_proceed_isExecuting (fun response hresponse => ?_) _
    cases hresponse
  · refine ⟨fun found hfound => ?_, trivial⟩
    -- The error of an event has the code of a resolver.
    obtain rfl := Option.some.inj hfound
    exact ExecutionContext.isRequestError_errorResponse _
  · exact subscription_proceed_isExecuting (fun _ => ExecutionContext.isRequestError_respond) _

/-- The first visit of a stream that executes something finds no such response. -/
theorem poll_subscribe_isExecuting (h : ¬ NothingToExecute schema document params) (hub : PubSub) :
    ((subscribe schema document params).poll hub).FindsExecuted ∧
      ((subscribe schema document params).poll hub).stream.IsExecuting := by
  refine poll_subscribe_induction
    (motive := fun visit => visit.FindsExecuted ∧ visit.stream.IsExecuting) schema document params hub
    (fun _ _ => ⟨nofun, trivial⟩) (fun errors hbuild => ?_) (fun ctx _ _ => ?_)
    (fun ctx hbuild htype log error hsource => ?_) fun _ _ _ _ _ _ _ => listening_isExecuting _ _
  · exact absurd (.inl ⟨errors, hbuild⟩) h
  · exact proceed_isExecuting (fun _ => ExecutionContext.isRequestError_respond) hub
  · -- The response says that nothing is executed only if there was nothing to subscribe to.
    refine proceed_isExecuting (fun response hresponse => ?_) hub
    obtain rfl : ctx.errorResponse error = response := Except.ok.inj hresponse
    rw [ExecutionContext.isRequestError_errorResponse]
    exact Bool.eq_false_iff.mpr fun hfatal => h (.inr ⟨ctx, hbuild, htype,
      (ExecutionContext.isRequestFatal_of_eventSource hsource).mp hfatal⟩)

/-- **No later response says that nothing is executed**, whatever the events are and whatever becomes of
the fields that are executed for them. -/
theorem poll_isExecuting {stream : ResponseStream} (h : stream.IsExecuting) (hub : PubSub) :
    (stream.poll hub).FindsExecuted ∧ (stream.poll hub).stream.IsExecuting := by
  cases stream with
  | answering run => exact proceed_isExecuting h hub
  | listening subscription => exact listening_isExecuting subscription hub
  | responding subscription run => exact subscription_proceed_isExecuting h hub
  | ended => exact ⟨nofun, trivial⟩
  | unstarted schema document params => exact poll_subscribe_isExecuting h hub

/-! ### Streams that fail at once -/

/-- The first visit finds the only response, which says that nothing is executed. -/
def FailsAtOnce (stream : ResponseStream) (hub : PubSub) : Prop :=
  ∃ log response, response.isRequestError = true ∧
    stream.poll hub = ⟨log, .ok (.ready response), .ended, hub⟩ ∧
      Closer (distance .ended hub) (stream.distance hub)

/-- **Where there is nothing to execute, the first visit says so.** -/
theorem failsAtOnce_subscribe (h : NothingToExecute schema document params) (hub : PubSub) :
    (subscribe schema document params).FailsAtOnce hub := by
  have hcloser : Closer (distance .ended hub) ((subscribe schema document params).distance hub) :=
    .inl Nat.one_pos
  -- Either the request is refused, or its subscription finds no field.
  rcases h with ⟨errors, hbuild⟩ | ⟨ctx, hbuild, htype, hnothing⟩
  · exact ⟨[], .requestError errors, isRequestError_of_build hbuild,
      poll_subscribe_of_refused hub hbuild, hcloser⟩
  · obtain ⟨root, hroot⟩ := ExecutionContext.exists_rootType_of_subscription hbuild htype
    obtain ⟨error, hsource⟩ :=
      ExecutionContext.exists_eventSource_of_subscribesToNothing hroot hnothing
    refine ⟨[], ctx.errorResponse error, ?_, ?_, hcloser⟩
    · rw [ExecutionContext.isRequestError_errorResponse]
      exact (ExecutionContext.isRequestFatal_of_eventSource hsource).mpr hnothing
    · rw [poll_subscribe_of_subscription hub hbuild htype, startSubscription, hsource]
      rfl

/-- A single response that says that nothing is executed is found at once. -/
theorem failsAtOnce_single {response : Response} (h : response.isRequestError = true) (hub : PubSub) :
    (single response).FailsAtOnce hub :=
  ⟨[], response, h, rfl, .inr ⟨rfl, .inr ⟨rfl, Nat.zero_lt_succ _⟩⟩⟩

/-! ### Giving up at such a response -/

variable {stream : ResponseStream} {log : List Event} {collected : List Response}

/-- Responses are wanted until one of them says that nothing is executed. -/
abbrev untilRequestError : List Response → Bool :=
  fun responses => !responses.any Response.isRequestError

/-- One visit more, where more responses are wanted. -/
theorem collectFrom_of_wanted {wanted : List Response → Bool} (hwanted : wanted collected = true) :
    collectFrom wanted log collected stream hub =
      let visit := stream.poll hub
      let log := log ++ visit.log
      let collected := collected ++ visit.response?.toList
      match visit.found with
      | .error why => stop log collected (.aborted why) visit.stream visit.hub
      | .ok .ended => stop log collected .ended visit.stream visit.hub
      | .ok _ =>
          if Closer (visit.stream.distance visit.hub) (stream.distance hub) then
            collectFrom wanted log collected visit.stream visit.hub
          else stop log collected .waiting visit.stream visit.hub := by
  rw [collectFrom, if_pos hwanted]
  generalize stream.poll hub = visit
  obtain ⟨log', found, stream', hub'⟩ := visit
  cases found with
  | error why => simp [Visit.response?]
  | ok found => cases found <;> simp [Visit.response?]

/-- Nothing gets closer to its end forever. -/
theorem wellFounded_closer : WellFounded Closer :=
  Subrelation.wf (fun h => Prod.lex_def.mpr (h.imp_right fun h => ⟨h.1, Prod.lex_def.mpr h.2⟩))
    (Prod.lex Nat.lt_wfRel (Prod.lex Nat.lt_wfRel Nat.lt_wfRel)).wf

/-- **A stream that executes something is not given up** before its end. The induction is on the visits
of the stream. -/
theorem collectFrom_untilRequestError (hstream : stream.IsExecuting)
    (hcollected : untilRequestError collected = true) :
    collectFrom untilRequestError log collected stream hub =
      collectFrom everything log collected stream hub := by
  induction hdistance : stream.distance hub using wellFounded_closer.induction
    generalizing log collected stream hub with
  | h distance ih =>
    -- The visit finds no response to stop at, and leaves a stream of the same kind.
    obtain ⟨hfinds, hlater⟩ := poll_isExecuting hstream hub
    rw [collectFrom_of_wanted hcollected, collectFrom_of_wanted rfl, hdistance]
    dsimp only
    split
    next => rfl
    next => rfl
    next found _ hfound =>
      split
      next hcloser =>
        -- What is collected by then holds no such response either, so that both go on alike.
        refine ih _ hcloser hlater ?_ rfl
        cases hresponse : (stream.poll hub).response? with
        | none => rwa [Option.toList_none, List.append_nil]
        | some response => simpa [hfinds response hresponse] using hcollected
      next => rfl

/-- The responses of one visit more. -/
theorem responses_cons (hubs : List PubSub) :
    stream.responses (hub :: hubs) =
      (stream.poll hub).response?.toList ++ (stream.poll hub).stream.responses hubs := by
  rw [responses, visits, List.filterMap_cons]
  cases (stream.poll hub).response? <;> rfl

/-- The transcript is one of visits of the stream, after other responses. If it breaks down, one of the
visits does. The table of subscriptions is in order at all of them if it is at first. -/
def IsRun (stream : ResponseStream) (hub : PubSub) (collected : List Response) (transcript : Transcript) :
    Prop :=
  ∃ hubs, transcript.responses = collected ++ stream.responses hubs ∧
    (∀ why, transcript.ending = .aborted why → ∃ visit ∈ stream.visits hubs, visit.found = .error why) ∧
    (hub.Consistent → ∀ state ∈ hubs, state.Consistent)

/-- With its last visit a transcript has the response of that visit. -/
theorem isRun_stop {ending : Ending} {stream' : ResponseStream} {hub' : PubSub}
    (h : ∀ why, ending = .aborted why → (stream.poll hub).found = .error why) :
    stream.IsRun hub collected
      (stop log (collected ++ (stream.poll hub).response?.toList) ending stream' hub') := by
  refine ⟨[hub], ?_, fun why hending => ⟨_, List.mem_cons_self, h why hending⟩, fun hhub => by simpa⟩
  rw [responses_cons]
  exact congrArg (collected ++ ·) (List.append_nil _).symm

/-- A visit comes before the visits of what it leaves. -/
theorem IsRun.cons {transcript : Transcript}
    (h : (stream.poll hub).stream.IsRun (stream.poll hub).hub
      (collected ++ (stream.poll hub).response?.toList) transcript) :
    stream.IsRun hub collected transcript := by
  obtain ⟨hubs, hresponses, haborted, hhubs⟩ := h
  refine ⟨hub :: hubs, ?_, fun why hending => ?_, fun hhub => ?_⟩
  · rw [hresponses, responses_cons, List.append_assoc]
  · obtain ⟨visit, hmem, hfound⟩ := haborted why hending
    exact ⟨visit, List.mem_cons_of_mem _ hmem, hfound⟩
  · exact List.forall_mem_cons.mpr ⟨hhub, hhubs (consistent_poll hhub stream)⟩

/-- **A transcript is a run** of the stream. The induction is on its visits. -/
theorem isRun_collectFrom (wanted : List Response → Bool) :
    stream.IsRun hub collected (collectFrom wanted log collected stream hub) := by
  induction hdistance : stream.distance hub using wellFounded_closer.induction
    generalizing log collected stream hub with
  | h distance ih =>
    by_cases hwanted : wanted collected = true
    · rw [collectFrom_of_wanted hwanted, hdistance]
      dsimp only
      split
      -- The stream breaks down in this visit, which is where the run ends.
      next why hfound => exact isRun_stop fun why' hwhy => Ending.aborted.inj hwhy ▸ hfound
      next => exact isRun_stop fun _ hwhy => Ending.noConfusion hwhy
      next =>
        split
        -- The visit is the first one of the run, and the induction hypothesis gives the others.
        next hcloser => exact (ih _ hcloser rfl).cons
        next => exact isRun_stop fun _ hwhy => Ending.noConfusion hwhy
    · rw [collectFrom, if_neg hwanted]
      -- Nothing more is wanted: the run ends before the visit, and the stream has not broken down.
      refine ⟨[], (List.append_nil collected).symm, fun _ hwhy => Ending.noConfusion hwhy, fun _ => ?_⟩
      exact fun _ hmem => absurd hmem List.not_mem_nil

/-- Whoever wants everything never has enough. -/
theorem ending_collectFrom_ne_satisfied :
    (collectFrom everything log collected stream hub).ending ≠ .satisfied := by
  induction hdistance : stream.distance hub using wellFounded_closer.induction
    generalizing log collected stream hub with
  | h distance ih =>
    rw [collectFrom_of_wanted rfl, hdistance]
    dsimp only
    split
    next => exact Ending.noConfusion
    next => exact Ending.noConfusion
    next =>
      split
      next hcloser => exact ih _ hcloser rfl
      next => exact Ending.noConfusion

/-! ### Transcripts -/

/-- **A client that gives up at a response that says that nothing is executed** gets all responses of a
stream that executes something, and none of them says so. -/
theorem collect_of_isExecuting (h : stream.IsExecuting) (hub : PubSub) :
    collect untilRequestError stream hub = collect everything stream hub ∧
      ∀ response ∈ (collect everything stream hub).responses, response.isRequestError = false := by
  refine ⟨collectFrom_untilRequestError h rfl, fun response hmem => ?_⟩
  have hrun : stream.IsRun hub [] (collect everything stream hub) := isRun_collectFrom everything
  obtain ⟨hubs, hresponses, -⟩ := hrun
  rw [hresponses, List.nil_append] at hmem
  obtain ⟨visit, hvisit, hfound⟩ := List.mem_filterMap.mp hmem
  exact forall_visits_of_poll (fun _ hub h => poll_isExecuting h hub) h hubs visit hvisit response hfound

/-- Where nothing is executed, it gets the only response, which says so, and does not visit the stream
again. -/
theorem collect_of_failsAtOnce (h : stream.FailsAtOnce hub) :
    ∃ log response, response.isRequestError = true ∧
      collect everything stream hub = ⟨log, [response], .ended, hub⟩ ∧
        collect untilRequestError stream hub = ⟨log, [response], .satisfied, hub⟩ := by
  obtain ⟨log, response, hfatal, hpoll, hcloser⟩ := h
  refine ⟨log, response, hfatal, ?_, ?_⟩
  -- Whoever wants everything visits the stream again, which has ended.
  · rw [collect, collectFrom_of_ready hpoll hcloser, collectFrom_ended]
    rfl
  -- Whoever waits for such a response has got it and stops.
  · have hunwanted : ¬ untilRequestError [response] = true := by simp [hfatal]
    rw [collect, collectFrom_of_wanted rfl, hpoll]
    dsimp only
    rw [if_pos hcloser]
    change collectFrom untilRequestError ([] ++ log) [response] .ended hub = _
    rw [collectFrom, if_neg hunwanted, stop_ended]
    rfl

end ResponseStream
end GraphQL
