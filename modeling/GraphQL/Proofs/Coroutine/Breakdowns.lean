import GraphQL.Proofs.Coroutine.Endings

/-!
# How coroutines break down

A coroutine breaks down because a callback panics, or because it would go on for ever. Composites break
down only for reasons for which one of their parts does, and a caught panic is no reason any more.

* `Avoids bad` — the computation does not break down for a reason of some kind;
* `Avoids.bind`, `Avoids.joinAll` — the composites;
* `NeverPanics`, `neverPanics_iff_avoids` — the kind of all panics;
* `Settles` — the computation does not go on for ever.
-/

namespace GraphQL

/-- A panic, whatever its message. -/
def Abort.IsPanic (why : Abort) : Prop := ∃ message, why = .panicked message

namespace Coroutine

variable {ε ζ α β : Type} {bad : Abort → Prop}

/-- The computation does not break down for a reason of some kind. -/
def Avoids (bad : Abort → Prop) (c : Coroutine ε α) : Prop := ∀ why, c.outcome = .error why → ¬ bad why

/-- The computation does not break down in a panic. -/
def NeverPanics (c : Coroutine ε α) : Prop := ∀ message, c.outcome ≠ .error (.panicked message)

/-- The computation does not go on for ever: it has a result or panics. -/
def Settles (c : Coroutine ε α) : Prop := c.outcome ≠ .error .endless

theorem neverPanics_iff_avoids {c : Coroutine ε α} : c.NeverPanics ↔ c.Avoids Abort.IsPanic :=
  ⟨fun h _ hwhy ⟨message, hpanic⟩ => h message (hpanic ▸ hwhy),
    fun h message hwhy => h _ hwhy ⟨message, rfl⟩⟩

theorem settles_iff_avoids {c : Coroutine ε α} : c.Settles ↔ c.Avoids (· = .endless) :=
  ⟨fun h _ hwhy hendless => h (hendless ▸ hwhy), fun h hwhy => h _ hwhy rfl⟩

theorem Avoids.of_outcome {c : Coroutine ε α} {d : Coroutine ζ β} (h : c.Avoids bad)
    (houtcome : ∀ why, d.outcome = .error why → c.outcome = .error why) : d.Avoids bad :=
  fun why hwhy => h why (houtcome why hwhy)

theorem Avoids.finish (log : List ε) (result : α) : Avoids bad (.finish log result : Coroutine ε α) :=
  nofun

theorem avoids_abort_iff {log : List ε} {why : Abort} :
    Avoids bad (.abort log why : Coroutine ε α) ↔ ¬ bad why :=
  ⟨fun h => h why rfl, fun h _ hwhy => Except.error.inj hwhy ▸ h⟩

@[simp] theorem avoids_prepend_iff {events : List ε} {c : Coroutine ε α} :
    (c.prepend events).Avoids bad ↔ c.Avoids bad := by
  rw [Avoids, Avoids, outcome_prepend]

@[simp] theorem avoids_mapLog_iff {f : ε → ζ} {c : Coroutine ε α} :
    (c.mapLog f).Avoids bad ↔ c.Avoids bad := by
  rw [Avoids, Avoids, outcome_mapLog]

@[simp] theorem avoids_map_iff {f : α → β} {c : Coroutine ε α} :
    (c.map f).Avoids bad ↔ c.Avoids bad := by
  rw [Avoids, Avoids, outcome_map]
  cases c.outcome <;> simp [Except.map]

/-- A sequence avoids what both parts avoid. -/
theorem Avoids.bind {c : Coroutine ε α} {next : α → Coroutine ε β} (h : c.Avoids bad)
    (hnext : ∀ result, c.outcome = .ok result → (next result).Avoids bad) : (c.bind next).Avoids bad := by
  intro why
  rw [outcome_bind]
  cases houtcome : c.outcome with
  | ok result => exact hnext result houtcome why
  | error first => exact fun hwhy => h why (houtcome.trans (congrArg _ (Except.error.inj hwhy)))

/-- Two computations side by side avoid what both of them avoid. -/
theorem Avoids.join {c : Coroutine ε α} {d : Coroutine ε β} (hc : c.Avoids bad) (hd : d.Avoids bad) :
    (c.join d).Avoids bad := by
  -- The induction is on the visits of the first computation; the second one may be any.
  induction c generalizing d with
  | finish log result =>
    cases d with
    | finish log' result' => exact .finish _ _
    | abort log' why => exact avoids_abort_iff.mpr (avoids_abort_iff.mp hd)
    | suspend log' rest' => exact avoids_map_iff.mpr (hd : rest'.Avoids bad)
  | abort log why => exact avoids_abort_iff.mpr (avoids_abort_iff.mp hc)
  | suspend log rest ih =>
    cases d with
    | finish log' result' => exact avoids_map_iff.mpr (hc : rest.Avoids bad)
    | abort log' why => exact avoids_abort_iff.mpr (avoids_abort_iff.mp hd)
    | suspend log' rest' => exact ih hc hd

/-- **A group avoids what all of its members avoid.** -/
theorem Avoids.joinAll {cs : List (Coroutine ε α)} (h : ∀ c ∈ cs, c.Avoids bad) :
    (Coroutine.joinAll cs).Avoids bad := by
  induction cs with
  | nil => exact .finish _ _
  | cons c rest ih =>
    exact avoids_map_iff.mpr ((h c List.mem_cons_self).join
      (ih fun d hmem => h d (List.mem_cons_of_mem c hmem)))

/-- Catching panics adds no reason. -/
theorem Avoids.catchPanic {c : Coroutine ε α} (h : c.Avoids bad) (result : α) :
    (c.catchPanic result).Avoids bad := by
  refine h.of_outcome fun why hwhy => ?_
  rw [outcome_catchPanic] at hwhy
  split at hwhy
  · cases hwhy
  · exact hwhy

/-- **A caught panic is none.** -/
theorem avoids_isPanic_catchPanic (result : α) (c : Coroutine ε α) :
    (c.catchPanic result).Avoids Abort.IsPanic := by
  rintro _ hwhy ⟨message, rfl⟩
  rw [outcome_catchPanic] at hwhy
  split at hwhy
  next => cases hwhy
  next hnot => exact hnot message hwhy

end Coroutine

namespace Call

open Coroutine

variable {ε α : Type} {bad : Abort → Prop}

/-- The callback returns. -/
def Returns (call : Call α) : Prop := ∃ log result, call = .returned log result

/-- A callback that returns does not break down. -/
theorem Returns.avoids {call : Call α} (h : call.Returns) (event : String → ε) :
    (call.toCoroutine event).Avoids bad := by
  obtain ⟨log, result, rfl⟩ := h
  exact .finish _ _

/-- Any other one panics. -/
theorem toCoroutine_settles (call : Call α) (event : String → ε) : (call.toCoroutine event).Settles := by
  cases call with
  | returned log result => exact nofun
  | panicked log message => exact nofun

end Call

end GraphQL
