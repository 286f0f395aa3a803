import GraphQL.Proofs.Subscription.Replies

/-!
# Streams that are visited to their end

`ResponseStream.collect` visits a stream as long as that gets it closer to its end. Where the source of a
subscription is fixed in advance this comes to the end of the source: the responses are the replies to
its events. Where there is only one response, it comes to that.

A script gets shorter with every visit that does not find its end, and a response that is being made
has fewer visits to go, so collecting is an induction on both. `ComesTo` is what the two inductions
have in common: from a state of the stream on, some responses are collected and the farewell is
logged, whatever has been collected before.

* `ExecutionContext.replies` — the replies to some events, up to the first one that breaks down;
* `collect_listening` — the transcript of a subscription to a script;
* `collect_answering` — the transcript of a single response.
-/

namespace GraphQL

/-- The response to an event before the ones to later events, if it does not break down. -/
def replyThen (answer : Except Abort Response) (later : List Response × ResponseStream.Ending) :
    List Response × ResponseStream.Ending :=
  match answer with
  | .error why => ([], .aborted why)
  | .ok response => (response :: later.1, later.2)

/-- The responses to some events, and how that ends: with the events, or with the first one that breaks
down. -/
def ExecutionContext.replies (ctx : ExecutionContext) (path : QueryPath) :
    List Occurrence → List Response × ResponseStream.Ending
  | [] => ([], .ended)
  | event :: rest => replyThen (ctx.answerTo path event) (replies ctx path rest)

/-- There may be an event in front of the others. -/
theorem ExecutionContext.replies_toList_append (ctx : ExecutionContext) (path : QueryPath)
    (next : Option Occurrence) (later : List Occurrence) :
    ctx.replies path (next.toList ++ later) =
      (next.map fun event => replyThen (ctx.answerTo path event) (ctx.replies path later)).getD
        (ctx.replies path later) := by
  cases next <;> rfl

namespace ResponseStream

variable {ctx : ExecutionContext} {path : QueryPath} {stream stream' : ResponseStream}
  {hub hub' : PubSub} {log log' : List Event} {collected : List Response}

/-- What is closer to a stream that is under way is closer to one that is to be started. -/
theorem Closer.of_lt {a b c : Nat × Nat × Nat} (h : Closer a b) (hlt : b.1 < c.1) : Closer a c := by
  rcases h with h | ⟨h, -⟩
  · exact .inl (Nat.lt_trans h hlt)
  · exact .inl (h ▸ hlt)

/-- Everything is wanted. -/
abbrev everything : List Response → Bool := fun _ => true

/-! ### One visit more -/

theorem collectFrom_of_error {why : Abort} (h : stream.poll hub = ⟨log', .error why, stream', hub'⟩) :
    collectFrom everything log collected stream hub =
      stop (log ++ log') collected (.aborted why) stream' hub' := by
  rw [collectFrom, if_pos rfl]
  simp only [h]

theorem collectFrom_of_ended (h : stream.poll hub = ⟨log', .ok .ended, stream', hub'⟩) :
    collectFrom everything log collected stream hub =
      stop (log ++ log') collected .ended stream' hub' := by
  rw [collectFrom, if_pos rfl]
  simp only [h]

theorem collectFrom_of_pending (h : stream.poll hub = ⟨log', .ok .pending, stream', hub'⟩)
    (hcloser : Closer (stream'.distance hub') (stream.distance hub)) :
    collectFrom everything log collected stream hub =
      collectFrom everything (log ++ log') collected stream' hub' := by
  rw [collectFrom, if_pos rfl]
  simp only [h, if_pos hcloser]

theorem collectFrom_of_ready {response : Response}
    (h : stream.poll hub = ⟨log', .ok (.ready response), stream', hub'⟩)
    (hcloser : Closer (stream'.distance hub') (stream.distance hub)) :
    collectFrom everything log collected stream hub =
      collectFrom everything (log ++ log') (collected ++ [response]) stream' hub' := by
  rw [collectFrom, if_pos rfl]
  simp only [h, if_pos hcloser]

/-- The visit goes on and gets a stream closer to its end than it has been. -/
def GoesOn (visit : Visit) (distance : Nat × Nat × Nat) : Prop :=
  ∀ found, visit.found = .ok found → found ≠ .ended →
    Closer (visit.stream.distance visit.hub) distance

/-- What is under way goes on before anything that is to be started. -/
theorem GoesOn.of_lt {visit : Visit} {a b : Nat × Nat × Nat} (h : GoesOn visit a) (hlt : a.1 < b.1) :
    GoesOn visit b :=
  fun found hfound hmore => (h found hfound hmore).of_lt hlt

/-- A stream whose next visit is that of another one, with some texts in front, is visited like that
one. -/
theorem collectFrom_of_prepend {texts : List String} {other : ResponseStream}
    (h : stream.poll hub = ((other.poll hub').prepend texts))
    (hother : GoesOn (other.poll hub') (other.distance hub'))
    (hstream : GoesOn (other.poll hub') (stream.distance hub)) :
    collectFrom everything log collected stream hub =
      collectFrom everything (log ++ texts.map .said) collected other hub' := by
  -- Only what the visit of the other stream finds matters, and not how it comes about.
  generalize hvisit : other.poll hub' = visit at h hother hstream
  obtain ⟨log', found, stream', hub''⟩ := visit
  cases found with
  | error why => rw [collectFrom_of_error h, collectFrom_of_error hvisit, List.append_assoc]
  | ok found =>
    cases found with
    | ended => rw [collectFrom_of_ended h, collectFrom_of_ended hvisit, List.append_assoc]
    | pending =>
      rw [collectFrom_of_pending h (hstream _ rfl (by simp)),
        collectFrom_of_pending hvisit (hother _ rfl (by simp)), List.append_assoc]
    | ready response =>
      rw [collectFrom_of_ready h (hstream _ rfl (by simp)),
        collectFrom_of_ready hvisit (hother _ rfl (by simp)), List.append_assoc]

/-- Giving up a stream that has ended changes nothing. -/
theorem stop_ended {ending : Ending} :
    stop log collected ending .ended hub = ⟨log, collected, ending, hub⟩ := by
  simp [stop, close, events?]

/-- A stream that has ended gives nothing more. -/
theorem collectFrom_ended :
    collectFrom everything log collected .ended hub = ⟨log, collected, .ended, hub⟩ := by
  have hpoll : poll .ended hub = ⟨[], .ok .ended, .ended, hub⟩ := rfl
  rw [collectFrom_of_ended hpoll, stop_ended, List.append_nil]

/-! ### A single response -/

/-- **The only response** is the one that the run ends with, and the transcript has everything that the
run logs. The induction is on the visits that the run takes. -/
theorem collectFrom_answering (run : Run Response) :
    collectFrom everything log collected (.answering run) hub =
      match run.outcome with
      | .ok response => ⟨log ++ run.log, collected ++ [response], .ended, hub⟩
      | .error why => ⟨log ++ run.log, collected, .aborted why, hub⟩ := by
  induction run generalizing log with
  | finish log' response =>
    -- The run is over in this visit, and so is the stream.
    have hpoll : poll (.answering (.finish log' response)) hub =
      ⟨log', .ok (.ready response), .ended, hub⟩ := rfl
    have hcloser : Closer (distance .ended hub) (distance (.answering (.finish log' response)) hub) :=
      .inr ⟨rfl, .inr ⟨rfl, Nat.zero_lt_succ _⟩⟩
    rw [collectFrom_of_ready hpoll hcloser, collectFrom_ended]
    rfl
  | abort log' why =>
    -- The run breaks down in this visit.
    have hpoll : poll (.answering (.abort log' why)) hub = ⟨log', .error why, .ended, hub⟩ := rfl
    rw [collectFrom_of_error hpoll, stop_ended]
    rfl
  | suspend log' rest ih =>
    -- The run goes on: the next visit finds the same stream with less of the run left.
    have hpoll : poll (.answering (.suspend log' rest)) hub =
      ⟨log', .ok .pending, .answering rest, hub⟩ := rfl
    have hcloser : Closer (distance (.answering rest) hub)
        (distance (.answering (.suspend log' rest)) hub) :=
      .inr ⟨rfl, .inr ⟨rfl, Nat.lt_succ_self _⟩⟩
    rw [collectFrom_of_pending hpoll hcloser, ih, List.append_assoc]
    rfl

/-- While the response is being made, every visit gets closer to it. -/
theorem goesOn_answering (hub : PubSub) (run : Run Response) :
    GoesOn (poll (.answering run) hub) (distance (.answering run) hub) := by
  intro found hfound _
  cases run with
  | finish log response => exact .inr ⟨rfl, .inr ⟨rfl, Nat.zero_lt_succ _⟩⟩
  | suspend log rest => exact .inr ⟨rfl, .inr ⟨rfl, Nat.lt_succ_self _⟩⟩
  | abort log why => cases hfound

/-! ### Replies to the events of a script -/

/-- Visits to the end come to the responses and to the ending. They leave publications alone, and what
is logged last is the farewell of the source. -/
def ComesTo (stream : ResponseStream) (hub : PubSub) (farewell : List String)
    (result : List Response × Ending) : Prop :=
  ∀ log collected, ∃ log', collectFrom everything log collected stream hub =
    ⟨log' ++ farewell.map .said, collected ++ result.1, result.2, hub⟩

section Script

variable {steps : List FeedStep} {farewell : List String} {keep : EventFilter}
  {result : List Response × Ending}

/-- A response that is being made comes before the ones that the stream comes to afterwards. The
induction is on the run of the response: visits that suspend it add nothing, and a breakdown ends
the stream with what has been collected so far. -/
theorem comesTo_responding (run : Run Response)
    (h : ComesTo (.listening ⟨ctx, path, ⟨.feed steps farewell, keep⟩⟩) hub farewell result) :
    ComesTo (.responding ⟨ctx, path, ⟨.feed steps farewell, keep⟩⟩ run) hub farewell
      (replyThen run.outcome result) := by
  induction run with
  | finish log' response =>
    intro log collected
    -- The response is there, and the stream goes on to listen.
    have hpoll : poll (.responding ⟨ctx, path, ⟨.feed steps farewell, keep⟩⟩ (.finish log' response))
      hub = ⟨log', .ok (.ready response), .listening ⟨ctx, path, ⟨.feed steps farewell, keep⟩⟩,
        hub⟩ := rfl
    obtain ⟨log'', hrest⟩ := h (log ++ log') (collected ++ [response])
    refine ⟨log'', ?_⟩
    rw [collectFrom_of_ready hpoll (.inr ⟨rfl, .inr ⟨rfl, Nat.zero_lt_succ _⟩⟩)]
    refine hrest.trans ?_
    simp [replyThen, Coroutine.outcome]
  | abort log' why =>
    intro log collected
    -- The stream ends with the panic, and its source says farewell.
    have hpoll : poll (.responding ⟨ctx, path, ⟨.feed steps farewell, keep⟩⟩ (.abort log' why)) hub =
      ⟨log' ++ farewell.map .said, .error why, .ended, hub⟩ := rfl
    refine ⟨log ++ log', ?_⟩
    rw [collectFrom_of_error hpoll, stop_ended]
    simp [replyThen, Coroutine.outcome]
  | suspend log' rest ih =>
    intro log collected
    -- The run goes on, and nothing has been added to the responses.
    have hpoll : poll (.responding ⟨ctx, path, ⟨.feed steps farewell, keep⟩⟩ (.suspend log' rest))
      hub = ⟨log', .ok .pending, .responding ⟨ctx, path, ⟨.feed steps farewell, keep⟩⟩ rest,
        hub⟩ := rfl
    obtain ⟨log'', hrest⟩ := ih (log ++ log') collected
    refine ⟨log'', ?_⟩
    rw [collectFrom_of_pending hpoll (.inr ⟨rfl, .inr ⟨rfl, Nat.lt_succ_self _⟩⟩)]
    exact hrest

/-- A visit of a subscription to a script follows the script. -/
theorem poll_listening_script {said : List String} {found : Poll ResolverResult}
    {left : List FeedStep} (h : EventStream.followScript keep steps = .returned said (found, left)) :
    poll (.listening ⟨ctx, path, ⟨.feed steps farewell, keep⟩⟩) hub =
      (Subscription.reply ⟨ctx, path, ⟨.feed left farewell, keep⟩⟩ hub found).prepend said := by
  have hvisit : EventStream.poll ⟨.feed steps farewell, keep⟩ hub =
      .returned said ⟨found, ⟨.feed left farewell, keep⟩, hub⟩ := by
    rw [EventStream.poll_feed, h]
    rfl
  exact poll_listening_of_returned hvisit

/-- If the script panics, so does the visit, which closes the source. -/
theorem poll_listening_script_of_panicked {said : List String} {message : String}
    (h : EventStream.followScript keep steps = .panicked said message) :
    poll (.listening ⟨ctx, path, ⟨.feed steps farewell, keep⟩⟩) hub =
      ⟨said.map .said ++ farewell.map .said, .error (.panicked message), .ended, hub⟩ := by
  refine poll_listening_of_panicked ?_
  rw [EventStream.poll_feed, h]
  rfl

/-- While a response is being made, every visit gets closer to it. -/
theorem goesOn_responding (run : Run Response) :
    GoesOn (poll (.responding ⟨ctx, path, ⟨.feed steps farewell, keep⟩⟩ run) hub)
      (distance (.responding ⟨ctx, path, ⟨.feed steps farewell, keep⟩⟩ run) hub) := by
  intro found hfound _
  cases run with
  | finish log response => exact .inr ⟨rfl, .inr ⟨rfl, Nat.zero_lt_succ _⟩⟩
  | suspend log rest => exact .inr ⟨rfl, .inr ⟨rfl, Nat.lt_succ_self _⟩⟩
  | abort log why => cases hfound

/-- It also gets closer than any visit with more of the script. -/
theorem goesOn_of_shorter (run : Run Response) {longer : List FeedStep}
    (h : steps.length < longer.length) :
    GoesOn (poll (.responding ⟨ctx, path, ⟨.feed steps farewell, keep⟩⟩ run) hub)
      (distance (.listening ⟨ctx, path, ⟨.feed longer farewell, keep⟩⟩) hub) := by
  intro found hfound _
  cases run with
  | finish log response | suspend log rest => exact .inr ⟨rfl, .inl h⟩
  | abort log why => cases hfound

/-- One visit of a script comes before what the stream comes to with the rest of it: the reply to the
event that it finds, if there is one. -/
theorem comesTo_of_returned {said : List String} {found : Poll ResolverResult} {left : List FeedStep}
    (hscript : EventStream.followScript keep steps = .returned said (found, left))
    (hended : found = .ended → result = ([], .ended))
    (hlater : found ≠ .ended → left.length < steps.length ∧
      ComesTo (.listening ⟨ctx, path, ⟨.feed left farewell, keep⟩⟩) hub farewell result) :
    ComesTo (.listening ⟨ctx, path, ⟨.feed steps farewell, keep⟩⟩) hub farewell
      (((EventStream.foundEvent? found).map fun event =>
        replyThen (ctx.answerTo path event) result).getD result) := by
  intro log collected
  have hpoll : poll (.listening ⟨ctx, path, ⟨.feed steps farewell, keep⟩⟩) hub = _ :=
    poll_listening_script hscript
  cases found with
  | ended =>
    -- The script is over: the stream ends without another response.
    obtain rfl := hended rfl
    have hpoll : poll (.listening ⟨ctx, path, ⟨.feed steps farewell, keep⟩⟩) hub =
      ⟨said.map .said ++ farewell.map .said, .ok .ended, .ended, hub⟩ := hpoll
    refine ⟨log ++ said.map .said, ?_⟩
    rw [collectFrom_of_ended hpoll, stop_ended, ← List.append_assoc]
    exact congrArg (Transcript.mk _ · _ _) (List.append_nil collected).symm
  | pending =>
    -- The script waits, and what it comes to is what it comes to later.
    obtain ⟨hshorter, hcomes⟩ := hlater (by simp)
    obtain ⟨log', hrest⟩ := hcomes (log ++ (said.map .said ++ [])) collected
    exact ⟨log', (collectFrom_of_pending hpoll (.inr ⟨rfl, .inl hshorter⟩)).trans hrest⟩
  | ready event =>
    obtain ⟨hshorter, hcomes⟩ := hlater (by simp)
    cases event with
    | error error =>
      -- An error is answered in the same visit, without an execution.
      obtain ⟨log', hrest⟩ := hcomes (log ++ (said.map .said ++ []))
        (collected ++ [ctx.errorResponse (error.toGraphQLError.withPath path.toErrorPath)])
      refine ⟨log', ?_⟩
      rw [collectFrom_of_ready hpoll (.inr ⟨rfl, .inl hshorter⟩)]
      refine hrest.trans ?_
      rw [List.append_assoc]
      rfl
    | ok payload =>
      -- The rest of the visit is the first one of the response.
      obtain ⟨log', hrest⟩ := comesTo_responding (ctx.forEvent payload).respond hcomes
        (log ++ said.map .said) collected
      refine ⟨log', ?_⟩
      rw [collectFrom_of_prepend hpoll (goesOn_responding _) (goesOn_of_shorter _ hshorter)]
      exact hrest

/-- **The replies to the events of a script.** The induction is on the length of the script: before
its end every visit gets further. A visit skips what the filter rejects, so it may use up several
steps, and an induction step by step would not do. -/
theorem comesTo_listening (steps : List FeedStep) :
    ComesTo (.listening ⟨ctx, path, ⟨.feed steps farewell, keep⟩⟩) hub farewell
      (ctx.replies path ((FeedStep.occurrences steps).filterMap (Occurrence.through keep))) := by
  induction hlength : steps.length using Nat.strongRecOn generalizing steps with
  | ind length ih =>
    have htakes := EventStream.followScript_takes keep steps
    cases hscript : EventStream.followScript keep steps with
    | panicked said message =>
      -- The first thing that the script has to offer is the panic, which has no reply.
      rw [hscript] at htakes
      cases htakes with
      | panicked hoffers =>
        intro log collected
        have hpoll : poll (.listening ⟨ctx, path, ⟨.feed steps farewell, keep⟩⟩) hub = _ :=
          poll_listening_script_of_panicked hscript
        refine ⟨log ++ said.map .said, ?_⟩
        rw [collectFrom_of_error hpoll, stop_ended, hoffers, ← List.append_assoc]
        exact congrArg (Transcript.mk _ · _ _) (List.append_nil collected).symm
    | returned said result =>
      obtain ⟨found, left⟩ := result
      have hfurther := EventStream.followScript_ended_or_lt hscript
      rw [hscript] at htakes
      cases htakes with
      | returned hoffers =>
        rw [hoffers, ExecutionContext.replies_toList_append]
        refine comesTo_of_returned hscript (fun hend => ?_) fun hmore => ?_
        -- At the end of the script nothing is offered any more.
        · obtain rfl : left = [] := (hfurther.resolve_right fun hmore => hmore.1 hend).2
          rfl
        -- Before the end a visit leaves less of the script, so that the induction hypothesis speaks
        -- of the rest.
        · have hshorter := (hfurther.resolve_left fun hend => hmore hend.1).2
          exact ⟨hshorter, ih left.length (hlength ▸ hshorter) left rfl⟩

/-- Before the end of a script every visit gets closer to it. -/
theorem goesOn_listening :
    GoesOn (poll (.listening ⟨ctx, path, ⟨.feed steps farewell, keep⟩⟩) hub)
      (distance (.listening ⟨ctx, path, ⟨.feed steps farewell, keep⟩⟩) hub) := by
  intro next hnext hmore
  cases hscript : EventStream.followScript keep steps with
  -- A panic finds nothing, so that there is nothing to go on from.
  | panicked said message =>
    rw [poll_listening_script_of_panicked hscript] at hnext
    cases hnext
  | returned said result =>
    obtain ⟨found, left⟩ := result
    have hfurther := EventStream.followScript_ended_or_lt hscript
    rw [poll_listening_script hscript] at hnext ⊢
    cases found with
    | ended =>
      obtain rfl : Poll.ended = next := Except.ok.inj hnext
      exact absurd rfl hmore
    | pending => exact .inr ⟨rfl, .inl (hfurther.resolve_left fun hend => by cases hend.1).2⟩
    | ready event =>
      -- The script is shorter after the event, whether its response is there in the same visit or
      -- not.
      have hshorter := (hfurther.resolve_left fun hend => by cases hend.1).2
      cases event with
      | error error => exact .inr ⟨rfl, .inl hshorter⟩
      | ok payload => exact goesOn_of_shorter _ hshorter next hnext hmore

end Script

/-! ### Transcripts -/

section Transcripts

variable {schema : Schema} {document : Document} {params : ExecutionParams}

/-- Without an event source the first visit is that of the execution. -/
theorem poll_subscribe_single (hub : PubSub)
    (h : ∀ ctx, ExecutionContext.build schema document params = .ok (.ok ctx) →
      ctx.operation.type ≠ .subscription) :
    (subscribe schema document params).poll hub =
      poll (.answering (execute schema document params)) hub := by
  rw [execute]
  cases hbuild : ExecutionContext.build schema document params with
  | error why => exact poll_subscribe_of_build_error hub hbuild
  | ok result =>
    cases result with
    | error errors => exact poll_subscribe_of_refused hub hbuild
    | ok ctx => exact poll_subscribe_of_not_subscription hub hbuild (h ctx hbuild)

/-- **A query, a mutation and a request that is refused have one response**, which is that of their
execution. -/
theorem collect_single (hub : PubSub)
    (h : ∀ ctx, ExecutionContext.build schema document params = .ok (.ok ctx) →
      ctx.operation.type ≠ .subscription) :
    collect everything (subscribe schema document params) hub =
      match (execute schema document params).outcome with
      | .ok response => ⟨(execute schema document params).log, [response], .ended, hub⟩
      | .error why => ⟨(execute schema document params).log, [], .aborted why, hub⟩ := by
  have hfirst : (subscribe schema document params).poll hub =
      ((answering (execute schema document params)).poll hub).prepend [] :=
    poll_subscribe_single hub h
  have hgoesOn := goesOn_answering hub (execute schema document params)
  rw [collect, collectFrom_of_prepend hfirst hgoesOn (hgoesOn.of_lt Nat.one_pos),
    collectFrom_answering]
  rfl

/-- **A subscription to a script** has the replies to its events. Publications stay as they are, and what
is logged last is the farewell of the source. -/
theorem collect_script {texts farewell : List String} {source : EventSource} {steps : List FeedStep}
    (hub : PubSub) (hbuild : ExecutionContext.build schema document params = .ok (.ok ctx))
    (htype : ctx.operation.type = .subscription)
    (hsource : ctx.eventSource = .ok (.returned texts (.ok (path, source))))
    (hscript : source.script? = some (steps, farewell)) :
    ∃ log, collect everything (subscribe schema document params) hub =
      ⟨log ++ farewell.map .said,
        (ctx.replies path
          ((FeedStep.occurrences steps).filterMap (Occurrence.through source.keeps))).1,
        (ctx.replies path
          ((FeedStep.occurrences steps).filterMap (Occurrence.through source.keeps))).2,
        hub⟩ := by
  have hfirst := poll_subscribe_of_source hub hbuild htype hsource
  rw [EventStream.ofSource_of_script hscript] at hfirst
  have hcomes : ComesTo (listening ⟨ctx, path, ⟨.feed steps farewell, source.keeps⟩⟩) hub farewell _ :=
    comesTo_listening steps
  obtain ⟨log, hrest⟩ := hcomes (texts.map .said) []
  refine ⟨log, ?_⟩
  rw [collect, collectFrom_of_prepend hfirst goesOn_listening (goesOn_listening.of_lt Nat.one_pos)]
  exact hrest

end Transcripts

end ResponseStream

end GraphQL
