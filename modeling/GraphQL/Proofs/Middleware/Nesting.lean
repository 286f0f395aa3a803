import GraphQL.Middleware
import Mathlib.Data.List.Forall2

/-!
# Interceptors around a resolver

A composed resolver keeps the whole chain of its interceptors and an index of the one that is next. What
it does is said without an index: the interceptors stand around the resolver one inside the other, and
each of them is given the resolver that those after it make.

* `Middleware.nest`, `Next.run_eq_nest`, `Middleware.wrap_eq_nest` — the nested interceptors;
* `Middleware.Selects`, `Middleware.selects_chainFor` — which interceptors stand around the resolver of a
  field;
* `Middleware.wrap_keeps`, `Middleware.wrap_relates` — what interceptors keep;
* `Interceptor.PassesOn`, `Middleware.wrap_of_passesOn` — interceptors that keep the resolver itself.
-/

namespace GraphQL

namespace Middleware

/-- Interceptors one inside the other, the first one outermost, with a resolver inside of all. -/
def nest : List Interceptor → Resolver → Resolver
  | [], resolver => resolver
  | interceptor :: rest, resolver => interceptor (nest rest resolver)

end Middleware

/-- **What is left of a chain** runs as the interceptors from the index on, one inside the other. The
induction is on what is left. -/
theorem Next.run_eq_nest (next : Next) (ctx : ResolverContext) :
    next.run ctx = Middleware.nest (next.chain.drop next.index) next.resolver ctx := by
  induction next, ctx using Next.run.induct with
  | case1 next ctx interceptor hfound ih =>
    obtain ⟨hindex, hnext⟩ := List.getElem?_eq_some_iff.mp hfound
    -- The interceptor may call the rest with any context, or not at all.
    have hrest : Next.run { next with index := next.index + 1 } =
        Middleware.nest (next.chain.drop (next.index + 1)) next.resolver := funext ih
    rw [Next.run, List.drop_eq_getElem_cons hindex, hnext, Middleware.nest, ← hrest]
    split
    next other hother =>
      obtain rfl := Option.some.inj (hfound.symm.trans hother)
      rfl
    next hnone => cases hfound.symm.trans hnone
  | case2 next ctx hend =>
    rw [Next.run, List.drop_eq_nil_of_le (List.getElem?_eq_none_iff.mp hend), Middleware.nest]
    split
    next other hother => cases hend.symm.trans hother
    next => rfl

namespace Middleware

/-- Composed interceptors are nested. -/
theorem compose_eq_nest (interceptors : List Interceptor) (resolver : Resolver) :
    compose interceptors resolver = nest interceptors resolver :=
  funext (Next.run_eq_nest ⟨interceptors, 0, resolver⟩)

/-- **A field has its interceptors around its resolver**, one inside the other. -/
theorem wrap_eq_nest (middleware : Middleware) (typeName fieldName : String) (resolver : Resolver) :
    middleware.wrap typeName fieldName resolver =
      nest (middleware.chainFor typeName fieldName) resolver := by
  rw [wrap]
  cases middleware.chainFor typeName fieldName with
  | nil => rfl
  | cons interceptor rest => exact compose_eq_nest (interceptor :: rest) resolver

/-! ### The interceptors of a field -/

/-- The interceptors that stand around the resolver of a field: none if the field is exempted, else those
for the field, else those for its type, else those for all fields. -/
inductive Selects (middleware : Middleware) (typeName fieldName : String) : List Interceptor → Prop
  | excluded (h : typeName ++ "." ++ fieldName ∈ middleware.excluded) :
      Selects middleware typeName fieldName []
  | ofField {interceptors : List Interceptor}
      (hexcluded : typeName ++ "." ++ fieldName ∉ middleware.excluded)
      (hfield : Entries.get? middleware.byKey (typeName ++ "." ++ fieldName) = some interceptors) :
      Selects middleware typeName fieldName interceptors
  | ofType {interceptors : List Interceptor}
      (hexcluded : typeName ++ "." ++ fieldName ∉ middleware.excluded)
      (hfield : Entries.get? middleware.byKey (typeName ++ "." ++ fieldName) = none)
      (htype : Entries.get? middleware.byKey typeName = some interceptors) :
      Selects middleware typeName fieldName interceptors
  | global (hexcluded : typeName ++ "." ++ fieldName ∉ middleware.excluded)
      (hfield : Entries.get? middleware.byKey (typeName ++ "." ++ fieldName) = none)
      (htype : Entries.get? middleware.byKey typeName = none) :
      Selects middleware typeName fieldName middleware.global

/-- The interceptors that are looked up for a field are those that stand around its resolver. -/
theorem selects_chainFor (middleware : Middleware) (typeName fieldName : String) :
    middleware.Selects typeName fieldName (middleware.chainFor typeName fieldName) := by
  rw [chainFor]
  by_cases hexcluded : typeName ++ "." ++ fieldName ∈ middleware.excluded
  · rw [if_pos (List.contains_iff_mem.mpr hexcluded)]
    exact .excluded hexcluded
  · rw [if_neg fun hcontains => hexcluded (List.contains_iff_mem.mp hcontains)]
    cases hfield : Entries.get? middleware.byKey (typeName ++ "." ++ fieldName) with
    | some interceptors => exact .ofField hexcluded hfield
    | none =>
      cases htype : Entries.get? middleware.byKey typeName with
      | some interceptors => exact .ofType hexcluded hfield htype
      | none => exact .global hexcluded hfield htype

/-! ### What interceptors keep -/

/-- What all interceptors of a field keep holds of its resolver behind them. The induction is on the
interceptors, from the innermost one on. -/
theorem wrap_keeps {P : Resolver → Prop} {middleware : Middleware} {typeName fieldName : String}
    {resolver : Resolver}
    (h : ∀ interceptor ∈ middleware.chainFor typeName fieldName,
      ∀ inner, P inner → P (interceptor inner))
    (hresolver : P resolver) : P (middleware.wrap typeName fieldName resolver) := by
  rw [wrap_eq_nest]
  generalize middleware.chainFor typeName fieldName = interceptors at h
  induction interceptors with
  | nil => exact hresolver
  | cons interceptor rest ih =>
    obtain ⟨hfirst, hrest⟩ := List.forall_mem_cons.mp h
    exact hfirst _ (ih hrest)

/-- Interceptors that keep a relation of resolvers, around related resolvers. The induction is on the
interceptors, from the innermost one on. -/
theorem wrap_relates {R : Resolver → Resolver → Prop} {middleware other : Middleware}
    {typeName fieldName : String} {resolver resolver' : Resolver}
    (h : List.Forall₂ (fun interceptor interceptor' => ∀ inner inner', R inner inner' →
      R (interceptor inner) (interceptor' inner')) (middleware.chainFor typeName fieldName)
      (other.chainFor typeName fieldName))
    (hresolver : R resolver resolver') :
    R (middleware.wrap typeName fieldName resolver) (other.wrap typeName fieldName resolver') := by
  rw [wrap_eq_nest, wrap_eq_nest]
  generalize middleware.chainFor typeName fieldName = interceptors at h
  generalize other.chainFor typeName fieldName = others at h
  induction h with
  | nil => exact hresolver
  | cons hfirst _ ih => exact hfirst _ _ ih

end Middleware

/-- An interceptor that only calls the resolver that it is given. -/
def Interceptor.PassesOn (interceptor : Interceptor) : Prop := ∀ resolver, interceptor resolver = resolver

/-- Behind interceptors that only pass on, a field has its own resolver. -/
theorem Middleware.wrap_of_passesOn {middleware : Middleware} {typeName fieldName : String}
    (h : ∀ interceptor ∈ middleware.chainFor typeName fieldName, Interceptor.PassesOn interceptor)
    (resolver : Resolver) : middleware.wrap typeName fieldName resolver = resolver := by
  refine wrap_keeps (P := (· = resolver)) (fun interceptor hmem inner hinner => ?_) rfl
  rw [h interceptor hmem, hinner]

end GraphQL
