import GraphQL.Proofs.Execution.SameRequests
import GraphQL.Proofs.Subscription.SameStreams

/-!
# Requests with the same answers

Two requests that differ in nothing but the resolvers that are called for them, and in these only so far
as nothing comes of it, are answered alike: executed with the same visits, logs and responses, and as
streams of responses visited and collected alike.

* `ExecutionContext.SameRequest.startsAlike` — contexts in which all resolvers do the same;
* `AnsweredAlike`, `SameButCallbacks.answeredAlike` — the answers to requests.
-/

namespace GraphQL

open ExecutionContext

/-- Events are executed for the same request. -/
theorem ExecutionContext.SameRequest.forEvent {ctx ctx' : ExecutionContext} (h : ctx.SameRequest ctx')
    (payload : FieldValue) : (ctx.forEvent payload).SameRequest (ctx'.forEvent payload) :=
  { h with
    rootValue := rfl
    isEvent := rfl }

/-- **Contexts in which all resolvers do the same** for the request itself and for events start streams in
the same way. -/
theorem ExecutionContext.SameRequest.startsAlike {ctx ctx' : ExecutionContext} (h : ctx.SameRequest ctx')
    (hsubscriber : ∀ typeName fieldName, (ctx.schema.fieldHooks typeName fieldName).subscriber =
      (ctx'.schema.fieldHooks typeName fieldName).subscriber)
    (hresolves : ∀ typeName fieldName atRoot, ctx.ResolvesSame ctx' typeName fieldName atRoot)
    (hevents : ∀ payload typeName fieldName atRoot,
      (ctx.forEvent payload).ResolvesSame (ctx'.forEvent payload) typeName fieldName atRoot) :
    ctx.StartsAlike ctx' where
  operation := h.operation
  config := h.config
  respond := h.respond_eq (fun root _ _ _ node _ => hresolves root.name node.name true)
    fun typeName fieldName => hresolves typeName fieldName false
  eventSource := h.eventSource_eq hsubscriber
  events _ := {
    config := h.config
    respond := fun payload =>
      (h.forEvent payload).respond_eq (fun root _ _ _ node _ => hevents payload root.name node.name true)
        fun typeName fieldName => hevents payload typeName fieldName false }

/-- Two requests with the same answers: executed with the same visits, logs and response, and visited and
collected alike as streams of responses. -/
structure AnsweredAlike (schema schema' : Schema) (document : Document) (params params' : ExecutionParams) :
    Prop where
  execute : execute schema document params = execute schema' document params'
  visits : ∀ hubs,
    ((ResponseStream.subscribe schema document params).visits hubs).map Visit.observed =
      ((ResponseStream.subscribe schema' document params').visits hubs).map Visit.observed
  collect : ∀ wanted hub,
    (ResponseStream.subscribe schema document params).collect wanted hub =
      (ResponseStream.subscribe schema' document params').collect wanted hub

/-- **Requests are answered alike** if they have all but callbacks in common and the same comes of the
contexts that they are executed in. -/
theorem SameButCallbacks.answeredAlike {schema schema' : Schema} {params params' : ExecutionParams}
    (h : SameButCallbacks schema schema' params params') (document : Document)
    (hstarts : ∀ operation vars, (ofRequest schema document params operation vars).StartsAlike
      (ofRequest schema' document params' operation vars)) :
    AnsweredAlike schema schema' document params params' := by
  have hbuilt : ExceptRel Eq (ExceptRel Eq StartsAlike) (build schema document params)
      (build schema' document params') :=
    h.build_related document fun operation vars _ => hstarts operation vars
  have halike : (ResponseStream.subscribe schema document params).Alike
      (.subscribe schema' document params') := .unstarted hbuilt
  exact {
    execute := h.execute_eq document fun operation vars => (hstarts operation vars).respond
    visits := halike.visits_eq
    collect := fun wanted hub => halike.collectFrom_eq wanted [] [] hub }

end GraphQL
