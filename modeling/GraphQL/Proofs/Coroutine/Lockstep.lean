import GraphQL.Proofs.Coroutine.Endings
import Mathlib.Data.List.Forall2

/-!
# Coroutines in lockstep

Two coroutines run in lockstep if they take the same visits. Each visit of the one ends as that of
the other does, and it logs the same events as far as a relation on events tells, in the same order;
the results agree as far as a relation on results tells.

* `Lockstep E R c d` — the relation, one constructor per way in which a visit ends;
* `Lockstep.bind`, `Lockstep.joinAll` — composites of parts in lockstep are in
  lockstep, since both sides are interleaved in the same way;
* `Lockstep.catchPanic`, `Call.Related.toCoroutine` — and so are callbacks that do the same;
* `Lockstep.polls_eq`, `Lockstep.log`, `Lockstep.outcome` — what can be told from outside.
-/

namespace GraphQL

/-- Two results are both values or both errors, each related by a relation of its own. -/
inductive ExceptRel {ε ζ α β : Type} (E : ε → ζ → Prop) (R : α → β → Prop) :
    Except ε α → Except ζ β → Prop
  | ok {value : α} {value' : β} (h : R value value') : ExceptRel E R (.ok value) (.ok value')
  | error {error : ε} {error' : ζ} (h : E error error') : ExceptRel E R (.error error) (.error error')

/-- A result is related to itself. -/
theorem ExceptRel.refl {ε α : Type} {E : ε → ε → Prop} {R : α → α → Prop} (herror : ∀ error, E error error)
    (hvalue : ∀ value, R value value) (result : Except ε α) : ExceptRel E R result result := by
  cases result with
  | ok value => exact .ok (hvalue value)
  | error error => exact .error (herror error)

/-- The values of both results are changed. -/
theorem ExceptRel.map {ε ζ α β γ δ : Type} {E : ε → ζ → Prop} {R : α → β → Prop} {S : γ → δ → Prop}
    {f : α → γ} {g : β → δ} {result : Except ε α} {result' : Except ζ β} (h : ExceptRel E R result result')
    (hmap : ∀ value value', R value value' → S (f value) (g value')) :
    ExceptRel E S (result.map f) (result'.map g) := by
  cases h with
  | ok h => exact .ok (hmap _ _ h)
  | error h => exact .error h

namespace Coroutine

variable {ε ζ α β γ δ : Type}

/-- Two coroutines that take the same visits, up to a relation on events and one on results. -/
inductive Lockstep (E : ε → ζ → Prop) (R : α → β → Prop) : Coroutine ε α → Coroutine ζ β → Prop
  | finish {log : List ε} {log' : List ζ} {result : α} {result' : β}
      (hlog : List.Forall₂ E log log') (hresult : R result result') :
      Lockstep E R (.finish log result) (.finish log' result')
  | abort {log : List ε} {log' : List ζ} (hlog : List.Forall₂ E log log') (why : Abort) :
      Lockstep E R (.abort log why) (.abort log' why)
  | suspend {log : List ε} {log' : List ζ} {rest : Coroutine ε α} {rest' : Coroutine ζ β}
      (hlog : List.Forall₂ E log log') (hrest : Lockstep E R rest rest') :
      Lockstep E R (.suspend log rest) (.suspend log' rest')

/-- How two computations end alike: with results that agree, or by the same breakdown. -/
inductive SameOutcome (R : α → β → Prop) : Except Abort α → Except Abort β → Prop
  | result {result : α} {result' : β} (h : R result result') :
      SameOutcome R (.ok result) (.ok result')
  | breakdown (why : Abort) : SameOutcome R (.error why) (.error why)

/-- A weaker agreement of results. -/
theorem SameOutcome.imp {R S : α → β → Prop}
    (hrelated : ∀ result result', R result result' → S result result')
    {outcome : Except Abort α} {outcome' : Except Abort β} (h : SameOutcome R outcome outcome') :
    SameOutcome S outcome outcome' := by
  cases h with
  | result h => exact .result (hrelated _ _ h)
  | breakdown why => exact .breakdown why

namespace Lockstep

variable {E : ε → ζ → Prop} {R : α → β → Prop} {S : γ → δ → Prop}
  {c : Coroutine ε α} {d : Coroutine ζ β}

/-- A computation that logs nothing and has a result at once. -/
theorem pure {result : α} {result' : β} (h : R result result') :
    Lockstep E R (.finish [] result) (.finish [] result') := .finish .nil h

/-- Relations that hold of equal things hold along one and the same computation. -/
theorem refl {E : ε → ε → Prop} {R : α → α → Prop} (hevent : ∀ event, E event event)
    (hresult : ∀ result, R result result) (c : Coroutine ε α) : Lockstep E R c c := by
  have hlog : ∀ log : List ε, List.Forall₂ E log log := fun log =>
    List.forall₂_same.mpr fun event _ => hevent event
  induction c with
  | finish log result => exact .finish (hlog log) (hresult result)
  | abort log why => exact .abort (hlog log) why
  | suspend log rest ih => exact .suspend (hlog log) ih

/-- A weaker agreement of events. -/
theorem imp {F : ε → ζ → Prop} (hevent : ∀ event event', E event event' → F event event')
    (h : Lockstep E R c d) : Lockstep F R c d := by
  induction h with
  | finish hlog hresult => exact .finish (hlog.imp hevent) hresult
  | abort hlog why => exact .abort (hlog.imp hevent) why
  | suspend hlog _ ih => exact .suspend (hlog.imp hevent) ih

/-- Corresponding events are logged in front of both. -/
theorem prepend {events : List ε} {events' : List ζ} (hevents : List.Forall₂ E events events')
    (h : Lockstep E R c d) : Lockstep E R (c.prepend events) (d.prepend events') := by
  cases h with
  | finish hlog hresult => exact .finish (List.rel_append hevents hlog) hresult
  | abort hlog why => exact .abort (List.rel_append hevents hlog) why
  | suspend hlog hrest => exact .suspend (List.rel_append hevents hlog) hrest

/-- Sequences: agreeing results are followed by computations in lockstep. -/
theorem bind {next : α → Coroutine ε γ} {next' : β → Coroutine ζ δ} (h : Lockstep E R c d)
    (hnext : ∀ result result', R result result' →
      Lockstep E S (next result) (next' result')) :
    Lockstep E S (c.bind next) (d.bind next') := by
  induction h with
  | finish hlog hresult => exact (hnext _ _ hresult).prepend hlog
  | abort hlog why => exact .abort hlog why
  | suspend hlog _ ih => exact .suspend hlog ih

/-- The same computation on both sides, followed by computations in lockstep. -/
theorem bind_same {E : ε → ε → Prop} (hevent : ∀ event, E event event) (c : Coroutine ε α)
    {next : α → Coroutine ε γ} {next' : α → Coroutine ε δ}
    (hnext : ∀ result, Lockstep E S (next result) (next' result)) :
    Lockstep E S (c.bind next) (c.bind next') := by
  have hsame : Lockstep E Eq c c := refl hevent (fun _ => rfl) c
  refine hsame.bind ?_
  rintro result _ rfl
  exact hnext result

theorem map {f : α → γ} {g : β → δ} (h : Lockstep E R c d)
    (hmap : ∀ result result', R result result' → S (f result) (g result')) :
    Lockstep E S (c.map f) (d.map g) := by
  induction h with
  | finish hlog hresult => exact .finish hlog (hmap _ _ hresult)
  | abort hlog why => exact .abort hlog why
  | suspend hlog _ ih => exact .suspend hlog ih

/-- The events are changed along both. -/
theorem mapLog {η θ : Type} {F : η → θ → Prop} {f : ε → η} {g : ζ → θ} (h : Lockstep E R c d)
    (hmap : ∀ event event', E event event' → F (f event) (g event')) :
    Lockstep F R (c.mapLog f) (d.mapLog g) := by
  induction h with
  | finish hlog hresult => exact .finish (List.rel_map hmap hlog) hresult
  | abort hlog why => exact .abort (List.rel_map hmap hlog) why
  | suspend hlog _ ih => exact .suspend (List.rel_map hmap hlog) ih

/-- A panic of both counts as results that agree. -/
theorem catchPanic {result : α} {result' : β} (h : Lockstep E R c d) (hresult : R result result') :
    Lockstep E R (c.catchPanic result) (d.catchPanic result') := by
  induction h with
  | finish hlog h => exact .finish hlog h
  | abort hlog why =>
    cases why with
    | panicked message => exact .finish hlog hresult
    | endless => exact .abort hlog .endless
  | suspend hlog _ ih => exact .suspend hlog ih

/-! ### Side by side -/

/-- Pairs whose components agree. -/
def Both (R : α → β → Prop) (S : γ → δ → Prop) (pair : α × γ) (pair' : β × δ) : Prop :=
  R pair.1 pair'.1 ∧ S pair.2 pair'.2

/-- Two computations side by side. As both sides take the same visits, the same one of the two
computations is over first, or breaks down first. -/
theorem join {e : Coroutine ε γ} {f : Coroutine ζ δ} (h : Lockstep E R c d)
    (h' : Lockstep E S e f) : Lockstep E (Both R S) (c.join e) (d.join f) := by
  induction h generalizing e f with
  | abort hlog why => exact .abort hlog why
  -- The first pair is over in this visit, and waits for the second pair.
  | finish hlog hresult =>
    cases h' with
    | finish hlog' hresult' => exact .finish (List.rel_append hlog hlog') ⟨hresult, hresult'⟩
    | abort hlog' why => exact .abort (List.rel_append hlog hlog') why
    | suspend hlog' hrest' =>
      exact .suspend (List.rel_append hlog hlog') (hrest'.map fun _ _ h => ⟨hresult, h⟩)
  -- The first pair goes on, whether the second one is over or not.
  | suspend hlog hrest ih =>
    cases h' with
    | finish hlog' hresult' =>
      exact .suspend (List.rel_append hlog hlog') (hrest.map fun _ _ h => ⟨h, hresult'⟩)
    | abort hlog' why => exact .abort (List.rel_append hlog hlog') why
    | suspend hlog' hrest' => exact .suspend (List.rel_append hlog hlog') (ih hrest')

/-- **Groups of computations in lockstep are in lockstep.** -/
theorem joinAll {cs : List (Coroutine ε α)} {ds : List (Coroutine ζ β)}
    (h : List.Forall₂ (Lockstep E R) cs ds) :
    Lockstep E (List.Forall₂ R) (Coroutine.joinAll cs) (Coroutine.joinAll ds) := by
  induction h with
  | nil => exact .pure .nil
  | cons hfirst _ ih => exact (hfirst.join ih).map fun _ _ h => .cons h.1 h.2

/-! ### From outside -/

/-- Both take the same number of visits. -/
theorem polls_eq (h : Lockstep E R c d) : c.polls = d.polls := by
  induction h with
  | finish | abort => rfl
  | suspend _ _ ih => exact congrArg (· + 1) ih

/-- Both log corresponding events in the same order. -/
theorem log (h : Lockstep E R c d) : List.Forall₂ E c.log d.log := by
  induction h with
  | finish hlog _ => exact hlog
  | abort hlog _ => exact hlog
  | suspend hlog _ ih => exact List.rel_append hlog ih

/-- Both end alike. -/
theorem outcome (h : Lockstep E R c d) : SameOutcome R c.outcome d.outcome := by
  induction h with
  | finish _ hresult => exact .result hresult
  | abort _ why => exact .breakdown why
  | suspend _ _ ih => exact ih

end Lockstep

end Coroutine

/-! ### Calls -/

namespace Call

variable {ε α β γ δ : Type} {R : α → β → Prop} {S : γ → δ → Prop} {call : Call α} {call' : Call β}

/-- Two calls do the same, up to a relation on what they return. -/
inductive Related (R : α → β → Prop) : Call α → Call β → Prop
  | returned (log : List String) {result : α} {result' : β} (h : R result result') :
      Related R (.returned log result) (.returned log result')
  | panicked (log : List String) (message : String) :
      Related R (.panicked log message) (.panicked log message)

/-- Every call does the same as itself. -/
theorem related_self (call : Call α) : Related Eq call call := by
  cases call with
  | returned log result => exact .returned log rfl
  | panicked log message => exact .panicked log message

namespace Related

theorem prepend (texts : List String) (h : Related R call call') :
    Related R (call.prepend texts) (call'.prepend texts) := by
  cases h with
  | returned log h => exact .returned (texts ++ log) h
  | panicked log message => exact .panicked (texts ++ log) message

/-- Related calls are followed by related ones. -/
theorem bind {next : α → Call γ} {next' : β → Call δ} (h : Related R call call')
    (hnext : ∀ result result', R result result' → Related S (next result) (next' result')) :
    Related S (call.bind next) (call'.bind next') := by
  cases h with
  | returned log h => exact (hnext _ _ h).prepend log
  | panicked log message => exact .panicked log message

/-- The visits of two calls, which log the same texts. -/
theorem toCoroutine {E : ε → ε → Prop} (event : String → ε) (hevent : ∀ text, E (event text) (event text))
    (h : Related R call call') :
    Coroutine.Lockstep E R (call.toCoroutine event) (call'.toCoroutine event) := by
  have htexts (log : List String) : List.Forall₂ E (log.map event) (log.map event) :=
    List.forall₂_same.mpr (List.forall_mem_map.mpr fun text _ => hevent text)
  cases h with
  | returned log h => exact .finish (htexts log) h
  | panicked log message => exact .abort (htexts log) (.panicked message)

end Related

end Call

end GraphQL
