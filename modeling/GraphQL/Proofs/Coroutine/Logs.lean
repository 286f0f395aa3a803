import GraphQL.Proofs.Coroutine.Endings

/-!
# What coroutines log

A property of events holds of everything that a composite logs if it holds of what its parts log,
whether the composite ends or breaks down and however its parts are interleaved.

* `Logs P c` — the computation logs only events with the property;
* `Logs.bind`, `Logs.joinAll` — the composites;
* `log_bind_of_error`, `bind_congr` — a sequence is fixed by its first part and by what follows on
  the result of that.
-/

namespace GraphQL

namespace Coroutine

variable {ε ζ α β : Type}

/-- The computation logs only events with the property. -/
def Logs (P : ε → Prop) (c : Coroutine ε α) : Prop := ∀ event ∈ c.log, P event

section Logs

variable {P : ε → Prop}

theorem Logs.nothing (result : α) : Logs P (.finish [] result) := by
  intro event hmem
  exact absurd hmem List.not_mem_nil

theorem logs_prepend {events : List ε} {c : Coroutine ε α} (hevents : ∀ event ∈ events, P event)
    (hc : c.Logs P) : (c.prepend events).Logs P := by
  intro event hmem
  rw [log_prepend] at hmem
  exact (List.mem_append.mp hmem).elim (hevents event) (hc event)

theorem logs_map_iff {f : α → β} {c : Coroutine ε α} : (c.map f).Logs P ↔ c.Logs P := by
  rw [Logs, Logs, log_map]

theorem logs_catchPanic_iff {result : α} {c : Coroutine ε α} :
    (c.catchPanic result).Logs P ↔ c.Logs P := by
  rw [Logs, Logs, log_catchPanic]

theorem Logs.mono {Q : ε → Prop} {c : Coroutine ε α} (h : c.Logs P)
    (himp : ∀ event, P event → Q event) : c.Logs Q :=
  fun event hmem => himp event (h event hmem)

/-- A sequence logs what its parts log. -/
theorem Logs.bind {c : Coroutine ε α} {next : α → Coroutine ε β} (h : c.Logs P)
    (hnext : ∀ result, (next result).Logs P) : (c.bind next).Logs P := by
  intro event hmem
  rcases mem_log_bind hmem with hfirst | ⟨result, -, hsecond⟩
  · exact h event hfirst
  · exact hnext result event hsecond

/-- What two computations side by side log comes from either of them. The induction is on the visits
of the first one, as that is the recursion of `join`; where one is over before the other, the rest
of the other is all there is. -/
theorem mem_log_join {c : Coroutine ε α} {d : Coroutine ε β} {event : ε}
    (h : event ∈ (c.join d).log) : event ∈ c.log ∨ event ∈ d.log := by
  -- The induction is on the visits of the first computation; the second one may be any.
  induction c generalizing d with
  | abort log why => exact .inl h
  | finish log result =>
    cases d with
    | finish log' result' => exact List.mem_append.mp h
    | abort log' why => exact List.mem_append.mp h
    | suspend log' rest' =>
      have hlog : event ∈ (log ++ log') ++ rest'.log := by
        rw [← log_map (result, ·) rest']
        exact h
      rw [List.append_assoc] at hlog
      exact List.mem_append.mp hlog
  | suspend log rest ih =>
    cases d with
    | abort log' why =>
      -- The visit of the first one has been made, and the rest of it is not visited any more.
      have hlog : event ∈ log ++ log' := h
      exact (List.mem_append.mp hlog).imp_left (List.mem_append_left _)
    | finish log' result' =>
      have hlog : event ∈ (log ++ log') ++ rest.log := by
        rw [← log_map (·, result') rest]
        exact h
      simp only [List.mem_append, Coroutine.log] at hlog ⊢
      tauto
    | suspend log' rest' =>
      have hlog : event ∈ (log ++ log') ++ (join rest rest').log := h
      rcases List.mem_append.mp hlog with hvisit | hlater
      · exact (List.mem_append.mp hvisit).imp (List.mem_append_left _) (List.mem_append_left _)
      · exact (ih hlater).imp (List.mem_append_right _) (List.mem_append_right _)

/-- **A group logs what its members log.** -/
theorem Logs.joinAll {cs : List (Coroutine ε α)} (h : ∀ c ∈ cs, c.Logs P) :
    (Coroutine.joinAll cs).Logs P := by
  induction cs with
  | nil => exact .nothing []
  | cons c rest ih =>
    have hrest := ih fun d hmem => h d (List.mem_cons_of_mem c hmem)
    refine logs_map_iff.mpr fun event hmem => ?_
    exact (mem_log_join hmem).elim (h c List.mem_cons_self event) (hrest event)

/-- A call of a callback logs its texts. -/
theorem logs_toCoroutine {event : String → ε} (call : Call α) (h : ∀ text, P (event text)) :
    (call.toCoroutine event).Logs P := by
  intro e hmem
  obtain ⟨text, rfl⟩ := exists_text_of_mem_log hmem
  exact h text

theorem logs_mapLog {f : ζ → ε} (c : Coroutine ζ α) (h : ∀ event, P (f event)) :
    (c.mapLog f).Logs P := by
  intro event hmem
  rw [log_mapLog] at hmem
  obtain ⟨source, -, rfl⟩ := List.mem_map.mp hmem
  exact h source

end Logs

/-! ### Sequences -/

/-- A sequence whose first part breaks down logs what that does. -/
theorem log_bind_of_error {c : Coroutine ε α} {why : Abort} (next : α → Coroutine ε β)
    (h : c.outcome = .error why) : (c.bind next).log = c.log := by
  induction c with
  | finish log result => exact absurd h (by simp [outcome])
  | abort log why => rfl
  | suspend log rest ih => exact congrArg (log ++ ·) (ih h)

/-- A sequence logs first what its first part logs. -/
theorem log_initial_bind (c : Coroutine ε α) (next : α → Coroutine ε β) :
    c.log <+: (c.bind next).log := by
  cases houtcome : c.outcome with
  | ok result =>
    rw [log_bind next houtcome]
    exact List.prefix_append _ _
  | error why =>
    have hlog : (c.bind next).log = c.log := log_bind_of_error next houtcome
    exact hlog ▸ List.prefix_rfl

/-- Only what follows on the result of the first part counts. -/
theorem bind_congr {c : Coroutine ε α} {next next' : α → Coroutine ε β}
    (h : ∀ result, c.outcome = .ok result → next result = next' result) :
    c.bind next = c.bind next' := by
  induction c with
  | finish log result => exact congrArg (prepend log) (h result rfl)
  | abort log why => rfl
  | suspend log rest ih => exact congrArg (suspend log) (ih h)

end Coroutine

end GraphQL
