import GraphQL.Execution.Field
import GraphQL.Proofs.Middleware.Lifetimes

/-!
# The chains of a request

`ExecutionContext.executeDefined` puts the interceptors around the resolver of a field anew for every
field. A request has one `ComposedChains` instead, and all fields of its execution, and of the executions
of its events if it is a subscription, ask that one. Here it is shown that both come to the same.

All resolvers that chains are asked for are there before the first field is executed and stay until the
last one is: those of the schema, that of the request, and the one for payloads (`ResolverOrigin`). Their
identities are addresses, so two of them have the same identity only if they are the same resolver
(`IdentifiesResolvers`). Two fields may well share one.

* `ExecutionContext.AsksFor` — the requests that a field of the request or of one of its events makes;
* `AsksFor.oneResolverEach` — resolvers of one identity are one resolver;
* `ComposedChains.exists_lawful`, `requests_lawful` — so whatever fields are executed and in whatever
  order, what they ask for is a lawful history of resolvers;
* `executeDefined_eq_of_asked` — **a field calls the resolver that the shared chains give for it**,
  whatever has been asked for before.
-/

namespace GraphQL

/-- Where the resolver of a field comes from. -/
inductive ResolverOrigin where
  /-- A field of the schema that has a resolver of its own. -/
  | field (typeName fieldName : String)
  /-- The root field of an event resolves to the payload. -/
  | event
  /-- The resolver of the request. -/
  | request

namespace ComposedChains

variable {chains : ComposedChains} {requests : List ChainRequest} {request : ChainRequest}

/-- The chains after some requests. -/
def after (chains : ComposedChains) (requests : List ChainRequest) : ComposedChains :=
  requests.foldl (fun chains request => (chains.wrap request).2) chains

/-- The chain for one more request is the last one. -/
theorem wrapAll_append_singleton (chains : ComposedChains) (requests : List ChainRequest)
    (request : ChainRequest) : chains.wrapAll (requests ++ [request]) =
      chains.wrapAll requests ++ [((chains.after requests).wrap request).1] := by
  induction requests generalizing chains with
  | nil => rfl
  | cons first rest ih => exact congrArg ((chains.wrap first).1 :: ·) (ih (chains.wrap first).2)

/-- **One more request** gets the chain that is composed for it alone. -/
theorem wrap_after (middleware : Middleware) (hone : OneResolverEach (requests ++ [request])) :
    (((new middleware).after requests).wrap request).1 = request.chain middleware := by
  have hall := wrapAll_eq middleware hone
  rw [wrapAll_append_singleton, List.map_append] at hall
  exact List.singleton_inj.mp (List.append_inj_right' hall rfl)

/-! ### Requests as a lawful history -/

/-- The resolvers of some requests, each of them once. -/
theorem exists_distinct_bases (hone : OneResolverEach requests) :
    ∃ resolvers : List SharedResolver, (resolvers.map SharedResolver.id).Nodup ∧
      (∀ resolver ∈ resolvers, ∃ request ∈ requests, request.base = resolver) ∧
      ∀ request ∈ requests, request.base ∈ resolvers := by
  induction requests with
  | nil => exact ⟨[], .nil, fun _ h => absurd h List.not_mem_nil, fun _ h => absurd h List.not_mem_nil⟩
  | cons request rest ih =>
    obtain ⟨resolvers, hdistinct, hbases, hall⟩ :=
      ih fun a ha b hb => hone a (.tail request ha) b (.tail request hb)
    have hbases' : ∀ resolver ∈ resolvers, ∃ other ∈ request :: rest, other.base = resolver :=
      fun resolver hmem => (hbases resolver hmem).imp fun _ h => h.imp_left (.tail request)
    by_cases hid : request.base.id ∈ resolvers.map SharedResolver.id
    · -- Its identity is that of a resolver that is there already, so it is that resolver.
      refine ⟨resolvers, hdistinct, hbases', List.forall_mem_cons.mpr ⟨?_, hall⟩⟩
      obtain ⟨resolver, hmem, hsame⟩ := List.mem_map.mp hid
      obtain ⟨other, hother, rfl⟩ := hbases' resolver hmem
      have hresolver := hone other hother request (.head rest) hsame
      have hbase : request.base = other.base :=
        congrArg₂ SharedResolver.mk hsame.symm hresolver.symm
      rw [hbase]
      exact hmem
    · refine ⟨request.base :: resolvers, List.nodup_cons.mpr ⟨hid, hdistinct⟩,
        List.forall_mem_cons.mpr ⟨⟨request, .head rest, rfl⟩, hbases'⟩, List.forall_mem_cons.mpr
          ⟨.head resolvers, fun other hother => .tail request.base (hall other hother)⟩⟩

/-- Requests for resolvers that are alive, none of which is given up. -/
theorem lawful_asked {alive : List SharedResolver} (h : ∀ request ∈ requests, request.base ∈ alive) :
    chains.Lawful alive (requests.map .asked) := by
  induction requests generalizing chains with
  | nil => trivial
  | cons request rest ih =>
    obtain ⟨hfirst, hrest⟩ := List.forall_mem_cons.mp h
    exact ⟨hfirst, ih hrest⟩

/-- Resolvers of different identities are made, before anything else happens to them. -/
theorem lawful_made {resolvers alive : List SharedResolver} {events : List ResolverEvent}
    (hdistinct : ((resolvers ++ alive).map SharedResolver.id).Nodup)
    (h : chains.Lawful (resolvers.reverse ++ alive) events) :
    chains.Lawful alive (resolvers.map .made ++ events) := by
  induction resolvers generalizing alive with
  | nil => exact h
  | cons resolver rest ih =>
    -- The resolver that has just been made is alive from here on, with an identity of its own.
    have hperm : ((rest ++ resolver :: alive).map SharedResolver.id).Nodup :=
      ((List.perm_middle.map SharedResolver.id).nodup_iff).mpr hdistinct
    refine ⟨fun other hother hid => ?_, ih hperm ?_⟩
    · refine (List.nodup_cons.mp hdistinct).1 (List.mem_map.mpr ⟨other, ?_, hid⟩)
      exact List.mem_append_right rest hother
    · rw [List.reverse_cons, List.append_assoc] at h
      exact h

/-- **Requests of which resolvers of one identity are one resolver are lawful:** their resolvers are made
first, and none is given up. -/
theorem exists_lawful (chains : ComposedChains) (hone : OneResolverEach requests) :
    ∃ resolvers : List SharedResolver,
      chains.Lawful [] (resolvers.map .made ++ requests.map .asked) := by
  obtain ⟨resolvers, hdistinct, -, hall⟩ := exists_distinct_bases hone
  refine ⟨resolvers, lawful_made ?_ (lawful_asked fun request hmem => ?_)⟩
  · rw [List.append_nil]
    exact hdistinct
  · rw [List.append_nil]
    exact List.mem_reverse.mpr (hall request hmem)

end ComposedChains

namespace ExecutionContext

open ComposedChains

/-- The origin of the resolver of a field, without its interceptors. -/
def origin (ctx : ExecutionContext) (typeName fieldName : String) (atRoot : Bool) : ResolverOrigin :=
  match (ctx.schema.fieldHooks typeName fieldName).resolver with
  | some _ => .field typeName fieldName
  | none => if ctx.isEvent && atRoot then .event else .request

/-- The resolver that a request has from an origin. -/
def heldResolver (ctx : ExecutionContext) : ResolverOrigin → Resolver
  | .field typeName fieldName =>
      (ctx.schema.fieldHooks typeName fieldName).resolver.getD ctx.fieldResolver
  | .event => .payload
  | .request => ctx.fieldResolver

/-- Origins have the same identity only if they have the same resolver. -/
def IdentifiesResolvers (ctx : ExecutionContext) (identity : ResolverOrigin → Nat) : Prop :=
  ∀ a b, identity a = identity b → ctx.heldResolver a = ctx.heldResolver b

/-- What a field asks the chains for. -/
def chainRequest (ctx : ExecutionContext) (identity : ResolverOrigin → Nat)
    (typeName fieldName : String) (atRoot : Bool) : ChainRequest :=
  ⟨typeName, fieldName,
    ⟨identity (ctx.origin typeName fieldName atRoot), ctx.baseResolver typeName fieldName atRoot⟩⟩

/-- What the fields of a request ask the chains for, or those of one of its events. -/
inductive AsksFor (ctx : ExecutionContext) (identity : ResolverOrigin → Nat) : ChainRequest → Prop
  | own (typeName fieldName : String) (atRoot : Bool) :
      AsksFor ctx identity (ctx.chainRequest identity typeName fieldName atRoot)
  | event (payload : FieldValue) (typeName fieldName : String) (atRoot : Bool) :
      AsksFor ctx identity ((ctx.forEvent payload).chainRequest identity typeName fieldName atRoot)

variable {ctx : ExecutionContext} {identity : ResolverOrigin → Nat} {requests : List ChainRequest}

/-- The resolver of a field is the one that its origin has. -/
theorem baseResolver_eq (ctx : ExecutionContext) (typeName fieldName : String) (atRoot : Bool) :
    ctx.baseResolver typeName fieldName atRoot =
      ctx.heldResolver (ctx.origin typeName fieldName atRoot) := by
  rw [baseResolver, origin]
  cases hresolver : (ctx.schema.fieldHooks typeName fieldName).resolver with
  | some resolver => rw [heldResolver, hresolver, Option.getD_some]
  | none =>
    dsimp only
    split <;> rfl

/-- What is asked for is a resolver that the request has, under its identity. -/
theorem AsksFor.base_eq {request : ChainRequest} (h : ctx.AsksFor identity request) :
    ∃ origin, request.base = ⟨identity origin, ctx.heldResolver origin⟩ := by
  cases h with
  | own typeName fieldName atRoot =>
    refine ⟨ctx.origin typeName fieldName atRoot, ?_⟩
    rw [chainRequest, baseResolver_eq]
  | event payload typeName fieldName atRoot =>
    -- An event has the resolvers of its request, and only chooses among them in another way.
    refine ⟨(ctx.forEvent payload).origin typeName fieldName atRoot, ?_⟩
    rw [chainRequest, baseResolver_eq]
    cases (ctx.forEvent payload).origin typeName fieldName atRoot <;> rfl

theorem AsksFor.oneResolverEach (hidentity : ctx.IdentifiesResolvers identity)
    (h : ∀ request ∈ requests, ctx.AsksFor identity request) : OneResolverEach requests := by
  intro a ha b hb hid
  obtain ⟨origin, horigin⟩ := (h a ha).base_eq
  obtain ⟨origin', horigin'⟩ := (h b hb).base_eq
  rw [horigin, horigin'] at hid ⊢
  exact hidentity origin origin' hid

/-- **What a request asks the chains for is lawful**, whatever fields of it and of its events are executed
and in whatever order. -/
theorem requests_lawful (hidentity : ctx.IdentifiesResolvers identity)
    (h : ∀ request ∈ requests, ctx.AsksFor identity request) :
    ∃ resolvers : List SharedResolver,
      (new ctx.middleware).Lawful [] (resolvers.map .made ++ requests.map .asked) :=
  exists_lawful _ (AsksFor.oneResolverEach hidentity h)

/-- Executes a field with the resolver that is called for it, interceptors included. -/
def executeResolved (ctx : ExecutionContext) (select : Select) (resolver : Resolver)
    (parent : FieldValue) (definition : FieldDefinition) (node : Field) (info : ResolveInfo) :
    Run Completed :=
  let nonNull := definition.type.isNonNull
  match Coercion.coerceArguments ctx.schema.types definition node ctx.vars with
  | .error .endless => .abort [] .endless
  | .error (.invalid error) =>
      (Completed.fail (error.withPath info.path.toErrorPath)).bind (Completed.absorb nonNull)
  | .ok arguments =>
      (ctx.invoke resolver ⟨parent, arguments, info, ctx.context⟩).bind fun result =>
        let completed := match result with
          | .error error => Completed.fail (info.located info.path error.toGraphQLError)
          | .ok value => Completion.completeValue ctx select info value
        completed.bind (Completed.absorb nonNull)

/-- **A field calls the resolver that the shared chains give for it**, whatever fields of the request and of
its events have asked before. The field is one of the request itself (`started = ctx`) or of an event. -/
theorem executeDefined_eq_of_asked (hidentity : ctx.IdentifiesResolvers identity)
    (hasked : ∀ request ∈ requests, ctx.AsksFor identity request) {started : ExecutionContext}
    (hstarted : started = ctx ∨ ∃ payload, started = ctx.forEvent payload) (select : Select)
    (object : ObjectType) (parent : FieldValue) (atRoot : Bool) (definition : FieldDefinition)
    (node : Field) (info : ResolveInfo) :
    started.executeDefined select object parent atRoot definition node info =
      started.executeResolved select
        (((new ctx.middleware).after requests).wrap
          (started.chainRequest identity object.name node.name atRoot)).1
        parent definition node info := by
  -- What the field asks for is a request like those before it.
  have hasks : ctx.AsksFor identity (started.chainRequest identity object.name node.name atRoot) := by
    rcases hstarted with rfl | ⟨payload, rfl⟩
    · exact .own ..
    · exact .event ..
  have hmiddleware : started.middleware = ctx.middleware := by
    rcases hstarted with rfl | ⟨payload, rfl⟩ <;> rfl
  -- With it, resolvers are still told apart by their identities, so that the shared chain is its
  -- own.
  have hone : OneResolverEach
      (requests ++ [started.chainRequest identity object.name node.name atRoot]) :=
    AsksFor.oneResolverEach hidentity
      (List.forall_mem_append.mpr ⟨hasked, List.forall_mem_singleton.mpr hasks⟩)
  rw [wrap_after ctx.middleware hone, ← hmiddleware]
  rfl

end ExecutionContext

end GraphQL
