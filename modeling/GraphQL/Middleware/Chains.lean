import GraphQL.Middleware

/-!
# Chains that are composed once

The resolver of a field is asked for again and again during an execution. `ComposedChains` puts the
interceptors around it the first time and remembers the outcome by type, field and the identity of the
resolver inside. A resolver stays with what was composed from it, so its identity is not given to
another resolver as long as it is remembered.

Remembering changes nothing: what `ComposedChains.wrap` gives is `Middleware.wrap` of the same
arguments, as long as resolvers of one identity are one resolver.
-/

namespace GraphQL

/-- A resolver with its identity. -/
structure SharedResolver where
  id : Nat
  resolver : Resolver

/-- What a chain is asked for. -/
structure ChainRequest where
  typeName : String
  fieldName : String
  base : SharedResolver

/-- What has been composed: the request with the resolver made for it, the latest one first. -/
structure ComposedChains where
  middleware : Middleware
  composed : List (ChainRequest × Resolver)

namespace ComposedChains

/-- Nothing composed yet. -/
def new (middleware : Middleware) : ComposedChains := ⟨middleware, []⟩

/-- Whether two requests are for the same type, field and resolver. -/
def sameRequest (a b : ChainRequest) : Bool :=
  a.typeName == b.typeName && a.fieldName == b.fieldName && a.base.id == b.base.id

/-- What has been composed for a request. -/
def find? (chains : ComposedChains) (request : ChainRequest) : Option Resolver :=
  (chains.composed.find? fun entry => sameRequest entry.1 request).map Prod.snd

/-- The resolver of a field with its interceptors around it, composed unless it is remembered. A field
without interceptors keeps its resolver, and nothing is remembered for it. -/
def wrap (chains : ComposedChains) (request : ChainRequest) : Resolver × ComposedChains :=
  match chains.middleware.chainFor request.typeName request.fieldName with
  | [] => (request.base.resolver, chains)
  | interceptors =>
      match chains.find? request with
      | some resolver => (resolver, chains)
      | none =>
          let resolver := Middleware.compose interceptors request.base.resolver
          (resolver, { chains with composed := (request, resolver) :: chains.composed })

/-- The resolvers for some requests, one after the other. -/
def wrapAll (chains : ComposedChains) : List ChainRequest → List Resolver
  | [] => []
  | request :: rest =>
      let (resolver, chains) := chains.wrap request
      resolver :: wrapAll chains rest

end ComposedChains

end GraphQL
