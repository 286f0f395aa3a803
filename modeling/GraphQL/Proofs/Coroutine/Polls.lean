import GraphQL.Proofs.Coroutine.Endings

/-!
# How many visits coroutines take

Where coroutines run one after the other their visits add up, and the visit in which the first one
ends is the one in which the second one starts. A group is visited as a whole, so it takes as many
visits as the slowest of its members.

* `polls_bind`, `polls_join`, `polls_joinAll` — the composites, as far as their parts have results;
* `exists_of_outcome_bind`, `exists_of_outcome_joinAll` — a composite with a result has parts with
  results; `exists_outcome_joinAll` — and the other way round for a group;
* `isReady_iff_polls` — a coroutine is over at once if no further visit is needed.
-/

namespace GraphQL

namespace Coroutine

variable {ε ζ α β ι : Type}

@[simp] theorem polls_prepend (events : List ε) (c : Coroutine ε α) :
    (c.prepend events).polls = c.polls := by
  cases c <;> rfl

@[simp] theorem polls_map (f : α → β) (c : Coroutine ε α) : (c.map f).polls = c.polls := by
  induction c with
  | suspend log rest ih => exact congrArg (· + 1) ih
  | _ => rfl

@[simp] theorem polls_mapLog (f : ε → ζ) (c : Coroutine ε α) : (c.mapLog f).polls = c.polls := by
  induction c with
  | suspend log rest ih => exact congrArg (· + 1) ih
  | _ => rfl

/-- A panic is caught in the visit in which it happens. -/
@[simp] theorem polls_catchPanic (result : α) (c : Coroutine ε α) :
    (c.catchPanic result).polls = c.polls := by
  induction c with
  | finish log value => rfl
  | abort log why => cases why <;> rfl
  | suspend log rest ih => exact congrArg (· + 1) ih

theorem isReady_iff_polls {c : Coroutine ε α} : c.isReady = true ↔ c.polls = 0 := by
  cases c <;> simp [isReady, polls]

/-! ### Composites with a result -/

theorem exists_of_outcome_bind {c : Coroutine ε α} {next : α → Coroutine ε β} {result : β}
    (h : (c.bind next).outcome = .ok result) :
    ∃ value, c.outcome = .ok value ∧ (next value).outcome = .ok result := by
  rw [outcome_bind] at h
  cases houtcome : c.outcome with
  | error why => rw [houtcome] at h; cases h
  | ok value =>
    rw [houtcome] at h
    exact ⟨value, rfl, h⟩

/-- A group has results only if all its members do, for it breaks down with any of them. -/
theorem exists_of_outcome_joinAll {cs : List (Coroutine ε α)} {results : List α}
    (h : (joinAll cs).outcome = .ok results) {c : Coroutine ε α} (hmem : c ∈ cs) :
    ∃ result, c.outcome = .ok result := by
  cases houtcome : c.outcome with
  | ok result => exact ⟨result, rfl⟩
  | error why =>
    obtain ⟨why', hwhy⟩ := Breaks.joinAll hmem ⟨why, houtcome⟩
    exact absurd (h.symm.trans hwhy) (by simp)

/-! ### Visits -/

/-- **One after the other** the visits add up. -/
theorem polls_bind {c : Coroutine ε α} {result : α} (next : α → Coroutine ε β)
    (h : c.outcome = .ok result) : (c.bind next).polls = c.polls + (next result).polls := by
  induction c with
  | finish log value =>
    obtain rfl : value = result := Except.ok.inj h
    rw [Coroutine.bind, polls_prepend, polls, Nat.zero_add]
  | abort log why => cases h
  | suspend log rest ih =>
    rw [Coroutine.bind, polls, polls, ih h]
    omega

/-- **Side by side** the slower one counts. -/
theorem polls_join {c : Coroutine ε α} {d : Coroutine ε β} {a : α} {b : β}
    (hc : c.outcome = .ok a) (hd : d.outcome = .ok b) :
    (c.join d).polls = max c.polls d.polls := by
  -- The induction is on the visits of the first computation; the second one may be any.
  induction c generalizing d with
  | abort log why => cases hc
  | finish log value =>
    cases d with
    | abort log' why => cases hd
    | finish log' value' => rfl
    | suspend log' rest' => simp [join, polls]
  | suspend log rest ih =>
    cases d with
    | abort log' why => cases hd
    | finish log' value' => simp [join, polls]
    | suspend log' rest' =>
      have hrest : (rest.join rest').polls = max rest.polls rest'.polls := ih hc hd
      rw [join, polls, polls, polls, hrest]
      omega

/-- A group whose members all have results has a result, and what its members say is all it says. -/
theorem exists_outcome_joinAll {members : List ι} {c : ι → Coroutine ε α}
    (h : ∀ i ∈ members, ∃ result, (c i).outcome = .ok result) :
    (∃ results, (joinAll (members.map c)).outcome = .ok results) ∧
      (joinAll (members.map c)).log.Perm (members.flatMap fun i => (c i).log) := by
  rcases members with _ | ⟨first, rest⟩
  · exact ⟨⟨[], rfl⟩, .refl _⟩
  · obtain ⟨result, -⟩ := h first List.mem_cons_self
    have : Nonempty α := ⟨result⟩
    choose! results hresults using h
    have hends := Ends.joinAll fun j hj => ⟨hresults j hj, .refl (c j).log⟩
    exact ⟨⟨_, hends.1⟩, hends.2⟩

/-- **A group takes as long as its slowest member.** -/
theorem polls_joinAll {members : List ι} {c : ι → Coroutine ε α}
    (h : ∀ i ∈ members, ∃ result, (c i).outcome = .ok result) :
    (joinAll (members.map c)).polls = (members.map fun i => (c i).polls).foldr max 0 := by
  induction members with
  | nil => rfl
  | cons i rest ih =>
    obtain ⟨⟨result, hresult⟩, hothers⟩ := List.forall_mem_cons.mp h
    -- The others end as a group, so their group can stand beside the first one.
    obtain ⟨⟨results, hresults⟩, -⟩ := exists_outcome_joinAll hothers
    rw [List.map_cons, joinAll, polls_map, polls_join hresult hresults, ih hothers, List.map_cons,
      List.foldr_cons]

end Coroutine

end GraphQL
