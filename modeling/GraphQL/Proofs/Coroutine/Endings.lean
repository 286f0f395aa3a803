import GraphQL.Coroutine
import Mathlib.Data.List.Basic

/-!
# How coroutines end

A coroutine that is visited until it is over either has a result or breaks down. Which of the two it
does, and with which result, is independent of the number of visits; what it logs is fixed up to the
order in which the members of its groups are visited.

* `Ends c result events` — `c` has the result and logs the events in some order;
* `Breaks c` — `c` breaks down;
* `Ends.bind`, `Ends.join`, `Ends.joinAll` — the composite ends when its parts do, and logs what
  they log together;
* `Breaks.bind`, `Breaks.joinAll` — the composite breaks down as soon as one part does, whatever the
  other parts do.
-/

namespace GraphQL

namespace Coroutine

variable {ε ζ α β : Type}

/-- The computation has a result, and logs the given events in some order. -/
def Ends (c : Coroutine ε α) (result : α) (events : List ε) : Prop :=
  c.outcome = .ok result ∧ c.log.Perm events

/-- The computation breaks down. -/
def Breaks (c : Coroutine ε α) : Prop := ∃ why, c.outcome = .error why

theorem Ends.finish (log : List ε) (result : α) : Ends (.finish log result) result log :=
  ⟨rfl, .refl log⟩

theorem Breaks.abort (log : List ε) (why : Abort) : Breaks (.abort log why : Coroutine ε α) :=
  ⟨why, rfl⟩

/-- The order of the events does not count. -/
theorem Ends.perm {c : Coroutine ε α} {result : α} {events events' : List ε}
    (h : Ends c result events) (hperm : events.Perm events') : Ends c result events' :=
  ⟨h.1, h.2.trans hperm⟩

/-! ### Logging in front and changing the result -/

@[simp] theorem outcome_prepend (events : List ε) (c : Coroutine ε α) :
    (c.prepend events).outcome = c.outcome := by
  cases c <;> rfl

@[simp] theorem log_prepend (events : List ε) (c : Coroutine ε α) :
    (c.prepend events).log = events ++ c.log := by
  cases c with
  | suspend log rest => exact List.append_assoc events log rest.log
  | _ => rfl

@[simp] theorem outcome_map (f : α → β) (c : Coroutine ε α) :
    (c.map f).outcome = c.outcome.map f := by
  induction c with
  | suspend log rest ih => exact ih
  | _ => rfl

@[simp] theorem log_map (f : α → β) (c : Coroutine ε α) : (c.map f).log = c.log := by
  induction c with
  | suspend log rest ih => exact congrArg (log ++ ·) ih
  | _ => rfl

@[simp] theorem outcome_mapLog (f : ε → ζ) (c : Coroutine ε α) :
    (c.mapLog f).outcome = c.outcome := by
  induction c with
  | suspend log rest ih => exact ih
  | _ => rfl

@[simp] theorem log_mapLog (f : ε → ζ) (c : Coroutine ε α) :
    (c.mapLog f).log = c.log.map f := by
  induction c with
  | suspend log rest ih => exact (congrArg (log.map f ++ ·) ih).trans List.map_append.symm
  | _ => rfl

/-- A panic that is caught is a result; another breakdown stays one. -/
theorem outcome_catchPanic (result : α) (c : Coroutine ε α) :
    (c.catchPanic result).outcome =
      match c.outcome with
      | .error (.panicked _) => .ok result
      | outcome => outcome := by
  induction c with
  | finish log value => rfl
  | abort log why => cases why <;> rfl
  | suspend log rest ih => exact ih

@[simp] theorem log_catchPanic (result : α) (c : Coroutine ε α) :
    (c.catchPanic result).log = c.log := by
  induction c with
  | finish log value => rfl
  | abort log why => cases why <;> rfl
  | suspend log rest ih => exact congrArg (log ++ ·) ih

theorem Ends.map {c : Coroutine ε α} {result : α} {events : List ε} (f : α → β)
    (h : Ends c result events) : Ends (c.map f) (f result) events := by
  refine ⟨?_, ?_⟩
  · rw [outcome_map, h.1]; rfl
  · rw [log_map]; exact h.2

theorem Breaks.map {c : Coroutine ε α} (f : α → β) (h : Breaks c) : Breaks (c.map f) := by
  obtain ⟨why, hwhy⟩ := h
  exact ⟨why, by rw [outcome_map, hwhy]; rfl⟩

/-! ### One after the other -/

/-- What a sequence ends with is what its second part ends with, if the first part has a result. -/
theorem outcome_bind (c : Coroutine ε α) (next : α → Coroutine ε β) :
    (c.bind next).outcome = c.outcome.bind fun result => (next result).outcome := by
  induction c with
  | finish log result => exact outcome_prepend log (next result)
  | abort log why => rfl
  | suspend log rest ih => exact ih

/-- A sequence whose first part has a result logs what both parts log. -/
theorem log_bind {c : Coroutine ε α} {result : α} (next : α → Coroutine ε β)
    (h : c.outcome = .ok result) : (c.bind next).log = c.log ++ (next result).log := by
  induction c with
  | finish log value =>
    -- The second part goes on in the same visit.
    obtain rfl : value = result := Except.ok.inj h
    exact log_prepend log (next value)
  | abort log why => exact absurd h (by simp [outcome])
  | suspend log rest ih =>
    exact (congrArg (log ++ ·) (ih h)).trans (List.append_assoc log rest.log _).symm

/-- What a sequence logs comes from its first part, or from the second one after a result of the
first. -/
theorem mem_log_bind {c : Coroutine ε α} {next : α → Coroutine ε β} {event : ε}
    (h : event ∈ (c.bind next).log) :
    event ∈ c.log ∨ ∃ result, c.outcome = .ok result ∧ event ∈ (next result).log := by
  induction c with
  | finish log result =>
    rw [Coroutine.bind, log_prepend, List.mem_append] at h
    exact h.imp_right fun hnext => ⟨result, rfl, hnext⟩
  | abort log why => exact .inl h
  | suspend log rest ih =>
    rcases List.mem_append.mp h with hlog | hrest
    · exact .inl (List.mem_append_left _ hlog)
    · exact (ih hrest).imp_left (List.mem_append_right log)

theorem Ends.bind {c : Coroutine ε α} {next : α → Coroutine ε β} {result : α} {result' : β}
    {events events' : List ε} (h : Ends c result events) (h' : Ends (next result) result' events') :
    Ends (c.bind next) result' (events ++ events') := by
  refine ⟨?_, ?_⟩
  · rw [outcome_bind, h.1]; exact h'.1
  · rw [log_bind next h.1]; exact h.2.append h'.2

theorem Breaks.bind {c : Coroutine ε α} (next : α → Coroutine ε β) (h : Breaks c) :
    Breaks (c.bind next) := by
  obtain ⟨why, hwhy⟩ := h
  exact ⟨why, by rw [outcome_bind, hwhy]; rfl⟩

/-- A sequence breaks down with its second part. -/
theorem Ends.bind_breaks {c : Coroutine ε α} {next : α → Coroutine ε β} {result : α}
    {events : List ε} (h : Ends c result events) (h' : Breaks (next result)) :
    Breaks (c.bind next) := by
  obtain ⟨why, hwhy⟩ := h'
  exact ⟨why, by rw [outcome_bind, h.1]; exact hwhy⟩

/-! ### Side by side -/

/-- The middle two of four lists change places. -/
private theorem perm_exchange (as bs cs ds : List ε) :
    ((as ++ bs) ++ (cs ++ ds)).Perm ((as ++ cs) ++ (bs ++ ds)) := by
  simp only [List.append_assoc]
  refine .append_left as ?_
  rw [← List.append_assoc, ← List.append_assoc]
  exact List.perm_append_comm.append_right ds

/-- Two computations side by side end with both results. Their events are interleaved visit by
visit, so they are those of the first and those of the second one up to order. -/
theorem Ends.join {c : Coroutine ε α} {d : Coroutine ε β} {a : α} {b : β} {events events' : List ε}
    (hc : Ends c a events) (hd : Ends d b events') :
    Ends (c.join d) (a, b) (events ++ events') := by
  suffices h : ∀ (c : Coroutine ε α) (d : Coroutine ε β), c.outcome = .ok a → d.outcome = .ok b →
      Ends (c.join d) (a, b) (c.log ++ d.log) from
    (h c d hc.1 hd.1).perm (hc.2.append hd.2)
  intro c
  -- The induction is on the visits of the first computation; the second one may be any.
  induction c with
  | abort log why =>
    intro d hc _
    exact absurd hc (by simp [outcome])
  | finish log value =>
    intro d hc hd
    obtain rfl : value = a := Except.ok.inj hc
    cases d with
    | finish log' value' =>
      obtain rfl : value' = b := Except.ok.inj hd
      exact .finish _ _
    | abort log' why => exact absurd hd (by simp [outcome])
    | suspend log' rest =>
      -- The first one is over: only the second one is visited again.
      refine ⟨?_, ?_⟩
      · exact (outcome_map _ rest).trans (congrArg (Except.map (value, ·)) hd)
      · simp [Coroutine.join, Coroutine.log]
  | suspend log rest ih =>
    intro d hc hd
    cases d with
    | finish log' value' =>
      -- The second one is over: its only events stand between those of the first one.
      obtain rfl : value' = b := Except.ok.inj hd
      refine ⟨?_, ?_⟩
      · exact (outcome_map _ rest).trans (congrArg (Except.map (·, value')) hc)
      · simp only [Coroutine.join, Coroutine.log, log_map, List.append_assoc]
        exact List.perm_append_comm.append_left log
    | abort log' why => exact absurd hd (by simp [outcome])
    | suspend log' rest' =>
      -- One visit of both, then the rest of both by induction.
      obtain ⟨hresult, hlog⟩ := ih rest' hc hd
      refine ⟨hresult, ?_⟩
      exact (hlog.append_left (log ++ log')).trans (perm_exchange log log' rest.log rest'.log)

/-- Two computations side by side break down when the first one does. -/
theorem Breaks.join_left {c : Coroutine ε α} (d : Coroutine ε β) (h : Breaks c) :
    Breaks (c.join d) := by
  obtain ⟨why, hwhy⟩ := h
  induction c generalizing d with
  | finish log result => exact absurd hwhy (by simp [outcome])
  | abort log why' => exact ⟨why', rfl⟩
  | suspend log rest ih =>
    cases d with
    -- A second one that is over cannot keep the first one from being visited again.
    | finish log' result => exact Breaks.map (·, result) ⟨why, hwhy⟩
    | abort log' why' => exact ⟨why', rfl⟩
    | suspend log' rest' => exact ih rest' hwhy

/-- Two computations side by side break down when the second one does. -/
theorem Breaks.join_right (c : Coroutine ε α) {d : Coroutine ε β} (h : Breaks d) :
    Breaks (c.join d) := by
  obtain ⟨why, hwhy⟩ := h
  induction d generalizing c with
  | finish log result => exact absurd hwhy (by simp [outcome])
  | abort log why' => cases c <;> exact ⟨_, rfl⟩
  | suspend log rest ih =>
    cases c with
    | finish log' result => exact Breaks.map (result, ·) ⟨why, hwhy⟩
    | abort log' why' => exact ⟨why', rfl⟩
    | suspend log' rest' => exact ih rest' hwhy

/-- **A group ends when all its members do.** The results come in the order of the members, whatever
the order in which they are there; the events are those of the members up to order. -/
theorem Ends.joinAll {ι : Type} {members : List ι} {c : ι → Coroutine ε α} {result : ι → α}
    {events : ι → List ε} (h : ∀ i ∈ members, Ends (c i) (result i) (events i)) :
    Ends (Coroutine.joinAll (members.map c)) (members.map result) (members.flatMap events) := by
  induction members with
  | nil => exact .finish [] []
  | cons i rest ih =>
    have hfirst := h i List.mem_cons_self
    have hrest := ih fun j hj => h j (List.mem_cons_of_mem i hj)
    exact (hfirst.join hrest).map fun results => results.1 :: results.2

/-- **A group breaks down with any of its members.** -/
theorem Breaks.joinAll {cs : List (Coroutine ε α)} {c : Coroutine ε α} (hmem : c ∈ cs)
    (h : Breaks c) : Breaks (Coroutine.joinAll cs) := by
  induction cs with
  | nil => exact absurd hmem (by simp)
  | cons d rest ih =>
    rcases List.mem_cons.mp hmem with rfl | hmem
    · exact (h.join_left _).map _
    · exact ((ih hmem).join_right d).map _

/-- What the single visit of a call logs are texts of the callback. -/
theorem exists_text_of_mem_log {event : String → ε} {call : Call α} {e : ε}
    (h : e ∈ (call.toCoroutine event).log) : ∃ text, event text = e := by
  cases call <;>
    · obtain ⟨text, _, htext⟩ := List.mem_map.mp h
      exact ⟨text, htext⟩

end Coroutine

end GraphQL
