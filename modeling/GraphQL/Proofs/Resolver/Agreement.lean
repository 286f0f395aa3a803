import GraphQL.Proofs.Middleware.Nesting

/-!
# Resolvers that agree

Two resolvers agree if they end with the same result wherever they are called, be it at once or
after any number of visits. Interceptors agree if they keep agreeing resolvers in agreement, so
nothing that they do depends on when a resolution is there.

* `Resolver.ending` — what a resolver ends with, without the visits that it takes;
* `Resolver.Agrees`, `Interceptor.Agrees`, `Middleware.Agrees` — agreement;
* `Middleware.wrap_agrees` — resolvers still agree behind agreeing interceptors;
* `Resolver.paced_agrees` — a resolver agrees with any slower version of it.
-/

namespace GraphQL

namespace Resolver

/-- What a resolver ends with, however many visits that takes. -/
def ending (resolver : Resolver) (ctx : ResolverContext) : Except Abort ResolverResult :=
  match resolver ctx with
  | .returned _ resolution => resolution.toCoroutine.outcome
  | .panicked _ message => .error (.panicked message)

/-- Two resolvers end with the same results. -/
def Agrees (resolver other : Resolver) : Prop := ∀ ctx, resolver.ending ctx = other.ending ctx

theorem Agrees.refl (resolver : Resolver) : resolver.Agrees resolver := fun _ => rfl

theorem Agrees.symm {resolver other : Resolver} (h : resolver.Agrees other) :
    other.Agrees resolver := fun ctx => (h ctx).symm

end Resolver

/-- Interceptors that take agreeing resolvers to agreeing ones. -/
def Interceptor.Agrees (interceptor other : Interceptor) : Prop :=
  ∀ resolver resolver', Resolver.Agrees resolver resolver' →
    Resolver.Agrees (interceptor resolver) (other resolver')

namespace Middleware

/-- Around every field there are agreeing interceptors, in the same order. -/
def Agrees (middleware other : Middleware) : Prop :=
  ∀ typeName fieldName, List.Forall₂ Interceptor.Agrees (middleware.chainFor typeName fieldName)
    (other.chainFor typeName fieldName)

/-- Without interceptors there is nothing to agree on. -/
theorem empty_agrees : empty.Agrees empty := fun _ _ => .nil

/-- **Resolvers still agree behind agreeing interceptors.** -/
theorem wrap_agrees {middleware other : Middleware} (h : middleware.Agrees other)
    (typeName fieldName : String) {resolver resolver' : Resolver}
    (hresolver : resolver.Agrees resolver') :
    (middleware.wrap typeName fieldName resolver).Agrees
      (other.wrap typeName fieldName resolver') :=
  wrap_relates (h typeName fieldName) hresolver

end Middleware

/-! ### Pace -/

/-- A resolution that takes some more visits. -/
def Resolution.paced (resolution : Resolution) : Nat → Resolution
  | 0 => resolution
  | n + 1 => .pending ((Coroutine.delay (n + 1)).bind fun _ => resolution.toCoroutine)

/-- A delay changes nothing but the number of visits. -/
theorem Coroutine.outcome_delay_bind {ε α : Type} (n : Nat) (c : Coroutine ε α) :
    ((Coroutine.delay n).bind fun _ => c).outcome = c.outcome := by
  induction n with
  | zero => cases c <;> rfl
  | succ n ih => exact ih

theorem Resolution.outcome_paced (resolution : Resolution) (n : Nat) :
    (resolution.paced n).toCoroutine.outcome = resolution.toCoroutine.outcome := by
  cases n with
  | zero => rfl
  | succ n => exact Coroutine.outcome_delay_bind (n + 1) resolution.toCoroutine

namespace Resolver

/-- The resolver with its resolutions delayed, each by as many visits as its pace says. -/
def paced (resolver : Resolver) (pace : ResolverContext → Nat) : Resolver := fun ctx =>
  match resolver ctx with
  | .returned log resolution => .returned log (resolution.paced (pace ctx))
  | .panicked log message => .panicked log message

/-- **A resolver agrees with itself at any pace.** -/
theorem paced_agrees (resolver : Resolver) (pace : ResolverContext → Nat) :
    (resolver.paced pace).Agrees resolver := by
  intro ctx
  unfold ending paced
  cases resolver ctx with
  | panicked log message => rfl
  | returned log resolution => exact resolution.outcome_paced (pace ctx)

end Resolver

end GraphQL
