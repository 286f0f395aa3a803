import GraphQL.Proofs.Middleware.Lifetimes
import GraphQL.Proofs.Subscription.SameAnswers
import GraphQL.Proofs.Subscription.Visits

/-!
# Composed resolvers

What a request calls for a field is composed from a chain of interceptors and remembered. It does what the
interceptors of the field do one inside the other around its resolver, and nothing else comes of the
middleware of a request: where interceptors only pass on, requests are answered as without them.

* `Middleware.PassesOn`, `answeredAlike_of_passesOn` — interceptors that only pass on;
* `composed_resolvers_nest` — composed resolvers, remembered and composed anew.
-/

namespace GraphQL

open ExecutionContext

/-- Every interceptor that stands around a resolver only passes on. -/
def Middleware.PassesOn (middleware : Middleware) : Prop :=
  ∀ typeName fieldName, ∀ interceptor ∈ middleware.chainFor typeName fieldName,
    Interceptor.PassesOn interceptor

namespace ExecutionContext

/-- The same execution without interceptors. -/
def withoutInterceptors (ctx : ExecutionContext) : ExecutionContext := { ctx with middleware := .empty }

variable {ctx : ExecutionContext}

theorem sameRequest_withoutInterceptors : ctx.SameRequest ctx.withoutInterceptors :=
  { SameRequest.refl ctx with }

/-- All fields have their own resolvers, as without interceptors. -/
theorem resolvesSame_withoutInterceptors (h : ctx.middleware.PassesOn) (typeName fieldName : String)
    (atRoot : Bool) : ctx.ResolvesSame ctx.withoutInterceptors typeName fieldName atRoot :=
  sameRequest_withoutInterceptors.resolvesSame
    (Middleware.wrap_of_passesOn (h typeName fieldName) (ctx.baseResolver typeName fieldName atRoot))

end ExecutionContext

/-- **Where interceptors only pass on**, requests are answered as without interceptors. -/
theorem answeredAlike_of_passesOn (schema : Schema) (document : Document) {params : ExecutionParams}
    (h : params.middleware.PassesOn) :
    AnsweredAlike schema schema document params { params with middleware := .empty } := by
  have hsame : SameButCallbacks schema schema params { params with middleware := .empty } :=
    ⟨rfl, rfl, fun _ => rfl, rfl, rfl, rfl, rfl, rfl⟩
  refine hsame.answeredAlike document fun operation vars => ?_
  exact sameRequest_withoutInterceptors.startsAlike (fun _ _ => rfl) (resolvesSame_withoutInterceptors h)
    fun payload => @resolvesSame_withoutInterceptors
      ((ofRequest schema document params operation vars).forEvent payload) h

/-- **Composed resolvers are nested interceptors.** Whatever resolvers are made, asked for and given up during
a request, each chain is the one that is composed for its type, field and resolver alone, although it may
be remembered. It does what the interceptors that are selected for the field do one inside the other, the
first one outermost, around the resolver. And where interceptors only pass on, requests are answered as
without interceptors. -/
theorem composed_resolvers_nest (middleware : Middleware) :
    (∀ events, (ComposedChains.new middleware).Lawful [] events →
      (ComposedChains.new middleware).wrapAll (ResolverEvent.requests events) =
        (ResolverEvent.requests events).map fun request =>
          middleware.wrap request.typeName request.fieldName request.base.resolver) ∧
    (∀ typeName fieldName, ∃ interceptors, middleware.Selects typeName fieldName interceptors ∧
      ∀ resolver, middleware.wrap typeName fieldName resolver =
        Middleware.nest interceptors resolver) ∧
    (middleware.PassesOn → ∀ (schema : Schema) (document : Document) (params : ExecutionParams),
      AnsweredAlike schema schema document { params with middleware }
        { params with middleware := .empty }) := by
  refine ⟨fun events hevents => ?_, fun typeName fieldName => ?_, fun h schema document params => ?_⟩
  · have hapart := ComposedChains.tellsApart_of_lawful (.new middleware) hevents
    exact ComposedChains.wrapAll_eq_chains (ComposedChains.faithful_new middleware) hapart
  · exact ⟨_, middleware.selects_chainFor typeName fieldName,
      middleware.wrap_eq_nest typeName fieldName⟩
  · exact @answeredAlike_of_passesOn schema document { params with middleware } h

namespace TickSample

/-- An interceptor that calls the resolver that it is given twice. -/
def twice : Interceptor := fun next ctx => (next ctx).bind fun _ => next ctx

/-- An interceptor that resolves fields itself. -/
def never : Interceptor := fun _ _ => .returned [] (.ok .null)

/-- Queries are resolved by an interceptor, which another one asks twice, ticks are exempted, and everything
else is asked for twice. -/
def interceptors : Middleware :=
  ((Middleware.ofList [twice]).addKey "Query" [twice, never]).exclude "Subscription.ticks"

/-- Three resolvers, of which the last one has the identity of the second one. -/
def resolverEvents : List ResolverEvent :=
  [.made ⟨7, .payload⟩, .asked ⟨"Clock", "now", ⟨7, .payload⟩⟩,
    .made ⟨9, .standard⟩, .asked ⟨"Subscription", "ticks", ⟨9, .standard⟩⟩, .givenUp 9,
    .made ⟨9, .payload⟩, .asked ⟨"Query", "now", ⟨9, .payload⟩⟩,
    .asked ⟨"Clock", "now", ⟨7, .payload⟩⟩]

/-- An interceptor that only calls the resolver that it is given. -/
def passOn : Interceptor := fun next ctx => next ctx

end TickSample

/-- Each field gets its own interceptors around its own resolver, whatever is remembered. An interceptor that
only passes on makes no difference to a query. -/
theorem composed_resolvers_nest_sample :
    (ComposedChains.new TickSample.interceptors).Lawful [] TickSample.resolverEvents ∧
    (ComposedChains.new TickSample.interceptors).wrapAll
        (ResolverEvent.requests TickSample.resolverEvents) =
      [TickSample.twice .payload, .standard, TickSample.twice (TickSample.never .payload),
        TickSample.twice .payload] ∧
    (Middleware.ofList [TickSample.passOn]).PassesOn ∧
    ∀ subscriber, execute (TickSample.schema subscriber) (TickSample.document .query [] "now" 3)
        { middleware := .ofList [TickSample.passOn] } =
      execute (TickSample.schema subscriber) (TickSample.document .query [] "now" 3) {} := by
  have hlawful : (ComposedChains.new TickSample.interceptors).Lawful [] TickSample.resolverEvents := by
    -- What is remembered when the second resolver is given up is the chain of the first one.
    have hkept : ∀ entry ∈ ((ComposedChains.new TickSample.interceptors).wrap
        ⟨"Clock", "now", ⟨7, .payload⟩⟩).2.composed, entry.1.base.id ≠ 9 :=
      List.forall_mem_singleton.mpr (by decide)
    refine ⟨?_, .head _, ?_, .head _, hkept, ?_, .head _, .tail _ (.head _), trivial⟩ <;> simp
  have hpass : (Middleware.ofList [TickSample.passOn]).PassesOn := by
    intro typeName fieldName interceptor hmem
    obtain rfl := List.mem_singleton.mp hmem
    exact fun _ => rfl
  refine ⟨hlawful, ?_, hpass, fun subscriber => ?_⟩
  · rw [(composed_resolvers_nest TickSample.interceptors).1 _ hlawful]
    simp only [TickSample.resolverEvents, ResolverEvent.requests, List.filterMap_cons, List.filterMap_nil,
      List.map_cons, List.map_nil, Middleware.wrap_eq_nest]
    rfl
  · exact ((composed_resolvers_nest (.ofList [TickSample.passOn])).2.2 hpass _ _ {}).execute

end GraphQL
