import GraphQL.Resolver.Basic

/-!
# Interceptors

An interceptor stands around a resolver: it may call the resolver any number of times, change its
resolution, or resolve the field itself. A `Middleware` says which interceptors stand around the
resolver of a field: those given for `Type.field`, else those given for `Type`, else the global
ones. Fields can be exempted from all of them.
-/

namespace GraphQL

/-- Makes a resolver from the one that it stands around. -/
abbrev Interceptor := Resolver → Resolver

/-- What is left of a chain of interceptors, with the resolver that it ends with. -/
structure Next where
  chain : List Interceptor
  index : Nat
  resolver : Resolver

/-- Goes on with the next interceptor, which is given what is left after it, or with the resolver. -/
def Next.run (next : Next) (ctx : ResolverContext) : Call Resolution :=
  match _hfound : next.chain[next.index]? with
  | some interceptor => interceptor (Next.run { next with index := next.index + 1 }) ctx
  | none => next.resolver ctx
termination_by next.chain.length - next.index
decreasing_by
  obtain ⟨hindex, -⟩ := List.getElem?_eq_some_iff.mp _hfound
  omega

/-- Interceptors for all fields, for some types and for some fields. -/
structure Middleware where
  global : List Interceptor
  /-- Interceptors by `Type` or `Type.field`. -/
  byKey : Entries (List Interceptor)
  /-- The fields, as `Type.field`, whose resolvers stand alone. -/
  excluded : List String

namespace Middleware

/-- The same interceptors for all fields. -/
def ofList (interceptors : List Interceptor) : Middleware := ⟨interceptors, [], []⟩

/-- No interceptors. -/
def empty : Middleware := ofList []

/-- Adds interceptors for all fields. -/
def addGlobal (middleware : Middleware) (interceptors : List Interceptor) : Middleware :=
  { middleware with global := middleware.global ++ interceptors }

/-- Adds interceptors for a type or a field. -/
def addKey (middleware : Middleware) (key : String) (interceptors : List Interceptor) : Middleware :=
  let known := (Entries.get? middleware.byKey key).getD []
  { middleware with byKey := Entries.insert middleware.byKey key (known ++ interceptors) }

/-- Exempts a field. -/
def exclude (middleware : Middleware) (key : String) : Middleware :=
  { middleware with excluded := key :: middleware.excluded }

/-- The interceptors of a field, the outermost one first. -/
def chainFor (middleware : Middleware) (typeName fieldName : String) : List Interceptor :=
  let key := typeName ++ "." ++ fieldName
  if middleware.excluded.contains key then []
  else
    ((Entries.get? middleware.byKey key).or (Entries.get? middleware.byKey typeName)).getD
      middleware.global

/-- Puts interceptors around a resolver, the first one outermost. -/
def compose (interceptors : List Interceptor) (resolver : Resolver) : Resolver := fun ctx =>
  Next.run ⟨interceptors, 0, resolver⟩ ctx

/-- Puts the interceptors of a field around a resolver. A field without interceptors keeps its
resolver. -/
def wrap (middleware : Middleware) (typeName fieldName : String) (resolver : Resolver) : Resolver :=
  match middleware.chainFor typeName fieldName with
  | [] => resolver
  | interceptors => compose interceptors resolver

end Middleware

end GraphQL
