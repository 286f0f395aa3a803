import GraphQL.Proofs.Middleware.Chains
import Mathlib.Data.List.Nodup

/-!
# Identities of resolvers

The identity of a resolver is only good while the resolver is alive: after that another resolver may get
it. Resolvers are given up when nobody has them any more, and `ComposedChains` has those that it remembers
chains for. So the identity of none of these is given away, and chains are never taken for another resolver.

* `ResolverEvent`, `ResolverEvent.requests` — what happens to resolvers, and the requests among that;
* `ComposedChains.Lawful` — identities are given to one resolver at a time;
* `ComposedChains.tellsApart_of_lawful` — then resolvers are told apart.
-/

namespace GraphQL

/-- What happens to resolvers: they are made, a chain for one of them is asked for, and they are given up. -/
inductive ResolverEvent where
  | made (resolver : SharedResolver)
  | asked (request : ChainRequest)
  | givenUp (id : Nat)

/-- The requests among some events, in their order. -/
def ResolverEvent.requests (events : List ResolverEvent) : List ChainRequest :=
  events.filterMap fun event => match event with
    | .asked request => some request
    | .made _ | .givenUp _ => none

namespace ComposedChains

variable {chains : ComposedChains} {alive : List SharedResolver}

/-- A resolver that is made gets an identity that no resolver alive has, chains are asked for resolvers that
are alive, and no resolver is given up that a chain is remembered for. -/
def Lawful (chains : ComposedChains) (alive : List SharedResolver) : List ResolverEvent → Prop
  | [] => True
  | .made resolver :: rest =>
      (∀ other ∈ alive, other.id ≠ resolver.id) ∧ chains.Lawful (resolver :: alive) rest
  | .asked request :: rest => request.base ∈ alive ∧ (chains.wrap request).2.Lawful alive rest
  | .givenUp id :: rest =>
      (∀ entry ∈ chains.composed, entry.1.base.id ≠ id) ∧
        chains.Lawful (alive.filter fun resolver => resolver.id != id) rest

/-- Resolvers that are alive have different identities, and all that are remembered are alive. -/
structure Retains (chains : ComposedChains) (alive : List SharedResolver) : Prop where
  distinct : (alive.map SharedResolver.id).Nodup
  remembered : ∀ entry ∈ chains.composed, entry.1.base ∈ alive

namespace Retains

theorem new (middleware : Middleware) : (ComposedChains.new middleware).Retains [] where
  distinct := .nil
  remembered _ hmem := absurd hmem List.not_mem_nil

/-- A resolver is made. -/
theorem cons (h : chains.Retains alive) {resolver : SharedResolver}
    (hfresh : ∀ other ∈ alive, other.id ≠ resolver.id) : chains.Retains (resolver :: alive) where
  distinct := by
    refine List.nodup_cons.mpr ⟨fun hmem => ?_, h.distinct⟩
    obtain ⟨other, hother, hid⟩ := List.mem_map.mp hmem
    exact hfresh other hother hid
  remembered entry hentry := List.mem_cons_of_mem resolver (h.remembered entry hentry)

/-- A chain is asked for. It is remembered with its resolver. -/
theorem wrap (h : chains.Retains alive) {request : ChainRequest} (halive : request.base ∈ alive) :
    (chains.wrap request).2.Retains alive where
  distinct := h.distinct
  remembered entry hentry := by
    obtain heq | hknown := fst_mem_of_mem_wrap hentry
    · rw [heq]
      exact halive
    · exact h.remembered entry hknown

/-- A resolver is given up. -/
theorem filter (h : chains.Retains alive) {id : Nat}
    (hunknown : ∀ entry ∈ chains.composed, entry.1.base.id ≠ id) :
    chains.Retains (alive.filter fun resolver => resolver.id != id) where
  distinct := h.distinct.sublist (List.filter_sublist.map SharedResolver.id)
  remembered entry hentry :=
    List.mem_filter.mpr ⟨h.remembered entry hentry, bne_iff_ne.mpr (hunknown entry hentry)⟩

theorem identifies (h : chains.Retains alive) {request : ChainRequest} (halive : request.base ∈ alive) :
    chains.Identifies request := by
  intro entry hentry hid
  rw [List.inj_on_of_nodup_map h.distinct (h.remembered entry hentry) halive hid]

end Retains

/-- **Resolvers are told apart** whenever they are asked for, if every identity is given to one resolver at a
time. The induction is on the events. -/
theorem tellsApart_of_lawful {events : List ResolverEvent} (h : chains.Retains alive)
    (hevents : chains.Lawful alive events) : chains.TellsApart (ResolverEvent.requests events) := by
  induction events generalizing chains alive with
  | nil => trivial
  | cons event rest ih =>
    cases event with
    | made resolver =>
      obtain ⟨hfresh, hrest⟩ := hevents
      exact ih (h.cons hfresh) hrest
    | asked request =>
      obtain ⟨halive, hrest⟩ := hevents
      exact ⟨h.identifies halive, ih (h.wrap halive) hrest⟩
    | givenUp id =>
      obtain ⟨hunknown, hrest⟩ := hevents
      exact ih (h.filter hunknown) hrest

end ComposedChains

end GraphQL
