import GraphQL.Middleware.Chains
import GraphQL.Proofs.Middleware.Nesting

/-!
# Remembered chains

What `ComposedChains` remembers is what would be composed anew. A chain that is asked for is that of its own
request, whatever has been asked for before, as long as resolvers are told apart by their identities.

* `ComposedChains.TellsApart` — the resolvers of requests are told apart from those that are remembered;
* `ComposedChains.wrap_spec`, `ComposedChains.wrapAll_eq_chains` — one request, and requests one after the
  other;
* `ComposedChains.wrapAll_eq` — in particular, requests of which resolvers of one identity are one
  resolver.
-/

namespace GraphQL

/-- The resolver of a request with its interceptors around it. -/
def ChainRequest.chain (request : ChainRequest) (middleware : Middleware) : Resolver :=
  middleware.wrap request.typeName request.fieldName request.base.resolver

namespace ComposedChains

variable {chains : ComposedChains} {requests : List ChainRequest} {request : ChainRequest}

/-- A remembered resolver that has the identity of the resolver of a request is that resolver. -/
def Identifies (chains : ComposedChains) (request : ChainRequest) : Prop :=
  ∀ entry ∈ chains.composed, entry.1.base.id = request.base.id →
    entry.1.base.resolver = request.base.resolver

/-- At every request the resolver of the request is told apart by its identity from all other resolvers that
are remembered. -/
def TellsApart (chains : ComposedChains) : List ChainRequest → Prop
  | [] => True
  | request :: rest => chains.Identifies request ∧ (chains.wrap request).2.TellsApart rest

/-- What is remembered are the chains of requests. -/
def Faithful (chains : ComposedChains) : Prop :=
  ∀ entry ∈ chains.composed, entry.2 = entry.1.chain chains.middleware

theorem faithful_new (middleware : Middleware) : (new middleware).Faithful :=
  fun _ hmem => absurd hmem List.not_mem_nil

/-- What is found for a request is its chain. -/
theorem find?_eq_chain {resolver : Resolver} (h : chains.Faithful) (hidentifies : chains.Identifies request)
    (hfind : chains.find? request = some resolver) :
    resolver = request.chain chains.middleware := by
  obtain ⟨entry, hentry, rfl⟩ := Option.map_eq_some_iff.mp hfind
  have hknown := List.mem_of_find?_eq_some hentry
  have hsame := List.find?_some hentry
  simp only [sameRequest, Bool.and_eq_true, beq_iff_eq] at hsame
  obtain ⟨⟨htype, hfield⟩, hid⟩ := hsame
  -- The entry was composed for the same type and field, and for the same resolver by its identity.
  rw [h entry hknown, ChainRequest.chain, ChainRequest.chain, htype, hfield, hidentifies entry hknown hid]

/-- What one request does: nothing is remembered for it, as its field has no interceptors or it is
remembered already, or else its chain is. -/
theorem wrap_cases (chains : ComposedChains) (request : ChainRequest) :
    (chains.middleware.chainFor request.typeName request.fieldName = [] ∧
      chains.wrap request = (request.base.resolver, chains)) ∨
    (∃ resolver, chains.find? request = some resolver ∧ chains.wrap request = (resolver, chains)) ∨
    chains.wrap request = (request.chain chains.middleware,
      { chains with composed := (request, request.chain chains.middleware) :: chains.composed }) := by
  rw [wrap, ChainRequest.chain, Middleware.wrap]
  cases chains.middleware.chainFor request.typeName request.fieldName with
  | nil => exact .inl ⟨rfl, rfl⟩
  | cons interceptor rest =>
    dsimp only
    cases hfind : chains.find? request with
    | some resolver => exact .inr (.inl ⟨resolver, rfl, rfl⟩)
    | none => exact .inr (.inr rfl)

/-- **One request** gets its chain, and what is remembered afterwards are chains of requests again. -/
theorem wrap_spec (h : chains.Faithful) (hidentifies : chains.Identifies request) :
    (chains.wrap request).1 = request.chain chains.middleware ∧
      (chains.wrap request).2.middleware = chains.middleware ∧ (chains.wrap request).2.Faithful := by
  obtain ⟨hnone, heq⟩ | ⟨resolver, hfind, heq⟩ | heq := chains.wrap_cases request
  · rw [heq, ChainRequest.chain, Middleware.wrap, hnone]
    exact ⟨rfl, rfl, h⟩
  · rw [heq]
    exact ⟨find?_eq_chain h hidentifies hfind, rfl, h⟩
  · rw [heq]
    exact ⟨rfl, rfl, List.forall_mem_cons.mpr ⟨rfl, h⟩⟩

/-- **Remembering changes nothing**: every request gets the chain that is composed for it alone. The
induction is on the requests. -/
theorem wrapAll_eq_chains (h : chains.Faithful) (hrequests : chains.TellsApart requests) :
    chains.wrapAll requests = requests.map (·.chain chains.middleware) := by
  induction requests generalizing chains with
  | nil => rfl
  | cons request rest ih =>
    obtain ⟨hidentifies, hrest⟩ := hrequests
    obtain ⟨hchain, hmiddleware, hfaithful⟩ := wrap_spec h hidentifies
    have hcons : chains.wrapAll (request :: rest) =
      (chains.wrap request).1 :: (chains.wrap request).2.wrapAll rest := rfl
    rw [hcons, hchain, ih hfaithful hrest, hmiddleware, List.map_cons]

/-! ### Resolvers of one identity -/

/-- Resolvers of one identity are one resolver. -/
def OneResolverEach (requests : List ChainRequest) : Prop :=
  ∀ a ∈ requests, ∀ b ∈ requests, a.base.id = b.base.id → a.base.resolver = b.base.resolver

/-- Only requests are remembered. -/
theorem fst_mem_of_mem_wrap {entry : ChainRequest × Resolver}
    (h : entry ∈ (chains.wrap request).2.composed) : entry.1 = request ∨ entry ∈ chains.composed := by
  obtain ⟨-, heq⟩ | ⟨resolver, -, heq⟩ | heq := chains.wrap_cases request
  · rw [heq] at h
    exact .inr h
  · rw [heq] at h
    exact .inr h
  · rw [heq] at h
    exact (List.mem_cons.mp h).imp (congrArg Prod.fst) id

theorem tellsApart_of_oneResolverEach {asked : List ChainRequest} (hone : OneResolverEach requests)
    (h : ∀ entry ∈ chains.composed, entry.1 ∈ requests) (hasked : ∀ request ∈ asked, request ∈ requests) :
    chains.TellsApart asked := by
  induction asked generalizing chains with
  | nil => trivial
  | cons request rest ih =>
    obtain ⟨hrequest, hrest⟩ := List.forall_mem_cons.mp hasked
    refine ⟨fun entry hentry => hone _ (h entry hentry) _ hrequest, ih (fun entry hentry => ?_) hrest⟩
    obtain heq | hknown := fst_mem_of_mem_wrap hentry
    · rw [heq]
      exact hrequest
    · exact h entry hknown

/-- Requests of which resolvers of one identity are one resolver get the chains that are composed for each
of them alone. -/
theorem wrapAll_eq (middleware : Middleware) (hone : OneResolverEach requests) :
    (new middleware).wrapAll requests = requests.map (·.chain middleware) :=
  wrapAll_eq_chains (faithful_new middleware)
    (tellsApart_of_oneResolverEach hone (fun _ hmem => absurd hmem List.not_mem_nil) fun _ hmem => hmem)

end ComposedChains

end GraphQL
