import GraphQL.Proofs.Coroutine.Endings

/-!
# Coroutines that are over at once

Where nothing is waited for, a coroutine is over after its first visit. A composite is over at once only
if its parts are, and then the order of what it logs is fixed: that of its parts, one after the other,
also where they run side by side.
-/

namespace GraphQL

namespace Coroutine

variable {ε α β ι : Type}

@[simp] theorem isReady_prepend (events : List ε) (c : Coroutine ε α) :
    (c.prepend events).isReady = c.isReady := by
  cases c <;> rfl

@[simp] theorem isReady_map (f : α → β) (c : Coroutine ε α) : (c.map f).isReady = c.isReady := by
  cases c <;> rfl

/-- A sequence is over at once if both parts are. -/
theorem isReady_bind {c : Coroutine ε α} {result : α} (next : α → Coroutine ε β)
    (h : c.outcome = .ok result) :
    (c.bind next).isReady = true ↔ c.isReady = true ∧ (next result).isReady = true := by
  cases c with
  | finish log value =>
    obtain rfl : value = result := Except.ok.inj h
    rw [Coroutine.bind, isReady_prepend]
    exact (and_iff_right rfl).symm
  | abort log why => cases h
  | suspend log rest => simp [Coroutine.bind, isReady]

/-- Two computations side by side are over at once if both are, and then the first one logs first. -/
theorem isReady_join {c : Coroutine ε α} {d : Coroutine ε β} {a : α} {b : β}
    (hc : c.outcome = .ok a) (hd : d.outcome = .ok b) (hready : (c.join d).isReady = true) :
    c.isReady = true ∧ d.isReady = true ∧ (c.join d).log = c.log ++ d.log := by
  -- Both have results, so neither breaks down; and neither is suspended, since the pair is not.
  cases c with
  | abort log why => exact nomatch hc
  | finish log value =>
    cases d with
    | finish log' value' => exact ⟨rfl, rfl, rfl⟩
    | abort log' why => exact nomatch hd
    | suspend log' rest => exact nomatch hready
  | suspend log rest =>
    cases d with
    | abort log' why => exact nomatch hd
    | finish log' value' | suspend log' rest' => exact nomatch hready

/-- **A group that is over at once** logs what its members log, one after the other. -/
theorem isReady_joinAll {members : List ι} {c : ι → Coroutine ε α} {result : ι → α}
    (h : ∀ i ∈ members, (c i).outcome = .ok (result i))
    (hready : (joinAll (members.map c)).isReady = true) :
    (∀ i ∈ members, (c i).isReady = true) ∧
      (joinAll (members.map c)).log = members.flatMap fun i => (c i).log := by
  induction members with
  | nil => exact ⟨fun _ hmem => absurd hmem List.not_mem_nil, rfl⟩
  | cons i rest ih =>
    -- The others have results as well, since all members have.
    have hrest : (joinAll (rest.map c)).outcome = .ok (rest.map result) :=
      (Ends.joinAll fun j hj => ⟨h j (List.mem_cons_of_mem i hj), .refl (c j).log⟩).1
    rw [List.map_cons, joinAll, isReady_map] at hready
    obtain ⟨hi, hothers, hlog⟩ := isReady_join (h i List.mem_cons_self) hrest hready
    obtain ⟨hall, hlogs⟩ := ih (fun j hj => h j (List.mem_cons_of_mem i hj)) hothers
    refine ⟨List.forall_mem_cons.mpr ⟨hi, hall⟩, ?_⟩
    rw [List.map_cons, joinAll, log_map, hlog, hlogs, List.flatMap_cons]

end Coroutine

end GraphQL
