import GraphQL.Execution.Field
import GraphQL.Proofs.Coroutine.Breakdowns

/-!
# Calls that fail where others panic

A resolver panics when it is called, or during any later visit of its resolution. Another one fails instead
if it does the same up to there and then returns the error that a panic counts as, in the same visit. The
two cannot be told apart where panics are caught.

* `Coroutine.FailsInstead`, `Call.FailsInstead` — computations and calls that fail where others panic;
* `Call.failing` — a call with failures instead of all panics;
* `Call.FailsInstead.caught_eq` — both come to the same where panics are caught.
-/

namespace GraphQL

/-- The second computation does what the first one does, but may fail where that panics. -/
inductive Coroutine.FailsInstead :
    Coroutine String ResolverResult → Coroutine String ResolverResult → Prop
  | same (computation : Coroutine String ResolverResult) : FailsInstead computation computation
  | panicked (log : List String) (message : String) :
      FailsInstead (.abort log (.panicked message)) (.finish log (.error .panicked))
  | suspend (log : List String) {rest rest' : Coroutine String ResolverResult}
      (h : FailsInstead rest rest') : FailsInstead (.suspend log rest) (.suspend log rest')

/-- The second call does what the first one does, but may fail where that panics: at once or later. -/
inductive Call.FailsInstead : Call Resolution → Call Resolution → Prop
  | same (call : Call Resolution) : FailsInstead call call
  | panicked (log : List String) (message : String) :
      FailsInstead (.panicked log message) (.returned log (.ready (.error .panicked)))
  | pending (log : List String) {computation computation' : Coroutine String ResolverResult}
      (h : computation.FailsInstead computation') :
      FailsInstead (.returned log (.pending computation)) (.returned log (.pending computation'))

/-! ### Failures instead of all panics -/

/-- The call with failures instead of panics. -/
def Call.failing : Call Resolution → Call Resolution
  | .panicked log _ => .returned log (.ready (.error .panicked))
  | .returned log (.ready result) => .returned log (.ready result)
  | .returned log (.pending computation) =>
      .returned log (.pending (computation.catchPanic (.error .panicked)))

/-- The call does not panic, and neither does what it returns. -/
def Call.NeverPanics (call : Call Resolution) : Prop :=
  ∃ log resolution, call = .returned log resolution ∧ resolution.toCoroutine.NeverPanics

theorem Coroutine.failsInstead_catchPanic (computation : Coroutine String ResolverResult) :
    computation.FailsInstead (computation.catchPanic (.error .panicked)) := by
  induction computation with
  | finish log result => exact .same _
  | abort log why =>
    cases why with
    | panicked message => exact .panicked log message
    | endless => exact .same _
  | suspend log rest ih => exact .suspend log ih

namespace Call

theorem failsInstead_failing (call : Call Resolution) : call.FailsInstead call.failing := by
  cases call with
  | panicked log message => exact .panicked log message
  | returned log resolution =>
    cases resolution with
    | ready result => exact .same _
    | pending computation => exact .pending log computation.failsInstead_catchPanic

theorem failing_neverPanics (call : Call Resolution) : call.failing.NeverPanics := by
  cases call with
  | panicked log message =>
    exact ⟨log, .ready (.error .panicked), rfl, Coroutine.neverPanics_iff_avoids.mpr (.finish _ _)⟩
  | returned log resolution =>
    cases resolution with
    | ready result =>
      exact ⟨log, .ready result, rfl, Coroutine.neverPanics_iff_avoids.mpr (.finish _ _)⟩
    | pending computation =>
      refine ⟨log, _, rfl, Coroutine.neverPanics_iff_avoids.mpr ?_⟩
      exact Coroutine.avoids_isPanic_catchPanic (.error .panicked) computation

end Call

/-! ### Where panics are caught -/

/-- Catching panics later makes no difference to a computation that fails instead. The induction is on the
visits up to the panic. -/
theorem Coroutine.FailsInstead.caught_eq {computation computation' : Coroutine String ResolverResult}
    (h : computation.FailsInstead computation') :
    (computation.mapLog Event.said).catchPanic (.error .panicked) =
      (computation'.mapLog Event.said).catchPanic (.error .panicked) := by
  induction h with
  | same computation => rfl
  | panicked log message => rfl
  | suspend log _ ih => rw [mapLog, mapLog, catchPanic, catchPanic, ih]

/-- A panic is caught with what was logged before. -/
theorem Coroutine.catchPanic_prepend {ε α : Type} (events : List ε) (c : Coroutine ε α) (result : α) :
    (c.prepend events).catchPanic result = (c.catchPanic result).prepend events := by
  cases c with
  | finish log value => rfl
  | abort log why => cases why <;> rfl
  | suspend log rest => rfl

/-- **A call that fails where another one panics** comes to the same if panics are caught, at the call and
later. -/
theorem Call.FailsInstead.caught_eq {call call' : Call Resolution} (h : call.FailsInstead call') :
    ((call.toCoroutine Event.said).bind fun resolution =>
        resolution.toCoroutine.mapLog Event.said).catchPanic (.error .panicked) =
      ((call'.toCoroutine Event.said).bind fun resolution =>
        resolution.toCoroutine.mapLog Event.said).catchPanic (.error .panicked) := by
  cases h with
  | same => rfl
  | panicked log message =>
    simp only [Call.toCoroutine, Coroutine.bind, Resolution.toCoroutine, Coroutine.mapLog,
      Coroutine.prepend, Coroutine.catchPanic, List.map_nil, List.append_nil]
  | pending log h =>
    simp only [Call.toCoroutine, Coroutine.bind, Resolution.toCoroutine, Coroutine.catchPanic_prepend,
      h.caught_eq]

end GraphQL
