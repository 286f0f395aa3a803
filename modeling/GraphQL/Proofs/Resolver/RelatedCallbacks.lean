import GraphQL.Request
import GraphQL.Proofs.Coroutine.Lockstep
import GraphQL.Proofs.Resolver.Agreement

/-!
# Callbacks that differ in their errors

Callbacks can do the same but for the errors that they return, and for these up to a relation. The
relation of the errors is carried over to what callbacks return: results, resolutions that are there
at once or take the same visits, and event sources. Interceptors get hold of the errors of the resolver
inside. They are related if they keep resolvers related, so that nothing they do depends on what the
relation leaves open.

* `Resolution.Related`, `EventSource.Related` — what callbacks return;
* `Resolver.Related`, `Subscriber.Related`, `Middleware.Related` — callbacks;
* `Schema.Related`, `ExecutionParams.Related` — all callbacks that a schema and a request bring along;
* `Middleware.wrap_related` — resolvers behind interceptors.
-/

namespace GraphQL

/-! ### What callbacks return -/

/-- Two results are the same value or related errors. -/
abbrev ResolverResult.Related (C : ResolverError → ResolverError → Prop) :
    ResolverResult → ResolverResult → Prop :=
  ExceptRel C Eq

/-- Two resolutions are there at once, or take the same visits. -/
inductive Resolution.Related (C : ResolverError → ResolverError → Prop) : Resolution → Resolution → Prop
  | ready {result result' : ResolverResult} (h : ResolverResult.Related C result result') :
      Related C (.ready result) (.ready result')
  | pending {computation computation' : Coroutine String ResolverResult}
      (h : Coroutine.Lockstep Eq (ResolverResult.Related C) computation computation') :
      Related C (.pending computation) (.pending computation')

/-- Two steps of scripts are equal, apart from related errors. -/
inductive FeedStep.Related (C : ResolverError → ResolverError → Prop) : FeedStep → FeedStep → Prop
  | wait : Related C .wait .wait
  | say (text : String) : Related C (.say text) (.say text)
  | event {result result' : ResolverResult} (h : ResolverResult.Related C result result') :
      Related C (.event result) (.event result')
  | panic (message : String) : Related C (.panic message) (.panic message)

/-- Two event sources are equal, apart from related errors in their scripts. -/
inductive EventSource.Related (C : ResolverError → ResolverError → Prop) :
    EventSource → EventSource → Prop
  | feed {steps steps' : List FeedStep} (h : List.Forall₂ (FeedStep.Related C) steps steps')
      (farewell : List String) : Related C (.feed steps farewell) (.feed steps' farewell)
  | topics (triggers : List String) : Related C (.topics triggers) (.topics triggers)
  | filtered (keep : EventFilter) {source source' : EventSource} (h : Related C source source') :
      Related C (.filtered keep source) (.filtered keep source')

/-- The visits of two resolutions. -/
theorem Resolution.Related.toCoroutine {C : ResolverError → ResolverError → Prop}
    {resolution resolution' : Resolution} (h : Related C resolution resolution') :
    Coroutine.Lockstep Eq (ResolverResult.Related C) resolution.toCoroutine resolution'.toCoroutine := by
  cases h with
  | ready h => exact .pure h
  | pending h => exact h

/-! ### Callbacks -/

/-- Two resolvers do the same, up to related errors. -/
def Resolver.Related (C : ResolverError → ResolverError → Prop) (resolver resolver' : Resolver) : Prop :=
  ∀ ctx, Call.Related (Resolution.Related C) (resolver ctx) (resolver' ctx)

/-- Two subscribers do the same, up to related errors. -/
def Subscriber.Related (C : ResolverError → ResolverError → Prop) (subscriber subscriber' : Subscriber) :
    Prop :=
  ∀ ctx, Call.Related (ExceptRel C (EventSource.Related C)) (subscriber ctx) (subscriber' ctx)

/-- Interceptors that take related resolvers to related ones. -/
def Interceptor.Related (C : ResolverError → ResolverError → Prop) (interceptor interceptor' : Interceptor) :
    Prop :=
  ∀ resolver resolver', Resolver.Related C resolver resolver' →
    Resolver.Related C (interceptor resolver) (interceptor' resolver')

/-- Around every field there are related interceptors, in the same order. -/
def Middleware.Related (C : ResolverError → ResolverError → Prop) (middleware middleware' : Middleware) :
    Prop :=
  ∀ typeName fieldName, List.Forall₂ (Interceptor.Related C) (middleware.chainFor typeName fieldName)
    (middleware'.chainFor typeName fieldName)

/-- Two schemas of the same types and settings whose resolvers and subscribers are related. -/
structure Schema.Related (C : ResolverError → ResolverError → Prop) (schema schema' : Schema) : Prop where
  types : schema.types = schema'.types
  config : schema.config = schema'.config
  resolveType : ∀ typeName,
    (schema.typeHooks typeName).resolveType = (schema'.typeHooks typeName).resolveType
  resolver : ∀ typeName fieldName, Option.Rel (Resolver.Related C)
    (schema.fieldHooks typeName fieldName).resolver (schema'.fieldHooks typeName fieldName).resolver
  subscriber : ∀ typeName fieldName, Option.Rel (Subscriber.Related C)
    (schema.fieldHooks typeName fieldName).subscriber (schema'.fieldHooks typeName fieldName).subscriber

/-- Two requests for the same whose resolvers and interceptors are related. -/
structure ExecutionParams.Related (C : ResolverError → ResolverError → Prop)
    (params params' : ExecutionParams) : Prop where
  rootValue : params.rootValue = params'.rootValue
  context : params.context = params'.context
  vars : params.vars = params'.vars
  operationName : params.operationName = params'.operationName
  fieldResolver : Resolver.Related C params.fieldResolver params'.fieldResolver
  typeResolver : params.typeResolver = params'.typeResolver
  middleware : Middleware.Related C params.middleware params'.middleware

section Standard

variable {C : ResolverError → ResolverError → Prop}

/-- Reading a field from the parent value does not fail. -/
theorem Resolver.standard_related : Resolver.Related C .standard .standard := fun _ =>
  .returned [] (.ready (.ok rfl))

theorem Resolver.payload_related : Resolver.Related C .payload .payload := fun _ =>
  .returned [] (.ready (.ok rfl))

/-- Requests from clients bring no callbacks along. -/
theorem Request.params_related (request : Request) :
    ExecutionParams.Related C request.params request.params where
  rootValue := rfl
  context := rfl
  vars := rfl
  operationName := rfl
  fieldResolver := Resolver.standard_related
  typeResolver := rfl
  middleware _ _ := .nil

/-- **Resolvers stay related behind related interceptors.** -/
theorem Middleware.wrap_related {middleware middleware' : Middleware}
    (h : Middleware.Related C middleware middleware') (typeName fieldName : String)
    {resolver resolver' : Resolver} (hresolver : Resolver.Related C resolver resolver') :
    Resolver.Related C (middleware.wrap typeName fieldName resolver)
      (middleware'.wrap typeName fieldName resolver') :=
  wrap_relates (h typeName fieldName) hresolver

end Standard

end GraphQL
