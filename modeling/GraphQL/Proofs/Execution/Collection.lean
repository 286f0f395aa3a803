import GraphQL.Execution.Collect
import GraphQL.Proofs.Entries

/-!
# What a collection of fields guarantees

The fields of an object are collected under their response keys. Whatever fragments are entered on
the way, every step of a collection is the addition of a field, so what one addition preserves holds
of the whole collection.

The recursion of a collection goes through inline fragments and fragments by name, and is bounded by
the fragments that have not been met. An invariant of groups is carried through all of this at once
by `collectFields_induction`, so that later proofs only look at one addition.

* `collectFields_induction` — the run lemma: an invariant of additions holds of all collected
  groups;
* `FieldGroups.Grouped` — the keys are distinct, and each has at least one selection, all of its own
  response key;
* `collectFields_grouped` — collections are grouped like that;
* `collectFields_congr` — a collection depends on the variables, the fragments and the types alone.
-/

namespace GraphQL

namespace ExecutionContext

variable {ctx : ExecutionContext} {object : ObjectType}

/-! ### Invariants of collections -/

/-- The addition of a field preserves a property of the groups. -/
def PreservedByAddition (P : FieldGroups → Prop) : Prop :=
  ∀ (collected : Collected) (field : Field),
    P collected.groups → P (collected.addField field).groups

section Invariant

variable {P : FieldGroups → Prop}

mutual

/-- Collecting selections preserves what additions preserve. The recursion is that of the
selections; named fragments are up to `enter`. -/
private theorem collectSelections_invariant (hadd : PreservedByAddition P)
    {enter : FragmentDefinition → Collected → Collected}
    (henter : ∀ fragment collected, P collected.groups → P (enter fragment collected).groups)
    (selections : List Selection) (collected : Collected) (h : P collected.groups) :
    P (collectSelections ctx object enter selections collected).groups :=
  match selections with
  | [] => h
  | selection :: rest => by
    rw [collectSelections]
    exact collectSelections_invariant hadd henter rest _
      (collectSelection_invariant hadd henter selection collected h)
termination_by structural selections

/-- One selection keeps what additions to the collected groups keep. The cases are those of the
selection; whatever entering a fragment keeps is a hypothesis, as its recursion is bounded by the
fragments that are left. -/
private theorem collectSelection_invariant (hadd : PreservedByAddition P)
    {enter : FragmentDefinition → Collected → Collected}
    (henter : ∀ fragment collected, P collected.groups → P (enter fragment collected).groups)
    (selection : Selection) (collected : Collected) (h : P collected.groups) :
    P (collectSelection ctx object enter selection collected).groups :=
  match selection with
  | .field node => by
    rw [collectSelection]
    -- A field is added, or left out.
    split
    · exact hadd collected node h
    · exact h
  | .spread name directives => by
    rw [collectSelection]
    -- A spread is left out, or met.
    split
    · exact h
    · -- Meeting a fragment leaves the groups alone.
      simp only
      split
      · split
        · exact henter _ _ h
        · exact h
      · exact h
  | .inline condition directives selections => by
    rw [collectSelection]
    -- What stands inside of an inline fragment is collected like anything else.
    split
    · exact collectSelections_invariant hadd henter selections collected h
    · exact h
termination_by structural selection

end

private theorem collectWithin_invariant (hadd : PreservedByAddition P) (depth : Nat)
    (selections : List Selection) (collected : Collected) (h : P collected.groups) :
    P (ctx.collectWithin object depth selections collected).groups := by
  induction depth generalizing selections collected with
  | zero => exact collectSelections_invariant hadd (fun _ _ h => h) selections collected h
  | succ depth ih =>
    exact collectSelections_invariant hadd
      (fun fragment collected h => ih fragment.selections collected h) selections collected h

/-- **What additions preserve holds of all collected groups.** -/
theorem collectFields_induction (hadd : PreservedByAddition P) (hempty : P [])
    (selectionSets : List (List Selection)) : P (ctx.collectFields object selectionSets) := by
  rw [collectFields]
  suffices h : ∀ collected : Collected, P collected.groups →
      P (selectionSets.foldl (fun collected selections =>
        ctx.collectWithin object ctx.fragments.length selections collected) collected).groups from
    h .empty hempty
  induction selectionSets with
  | nil => exact fun _ h => h
  | cons selections rest ih =>
    exact fun collected h => ih _ (collectWithin_invariant hadd _ selections collected h)

end Invariant

end ExecutionContext

/-! ### Groups -/

/-- Distinct keys, each with at least one selection, and all selections under their own key. -/
structure FieldGroups.Grouped (groups : FieldGroups) : Prop where
  nodup : (Entries.keys groups).Nodup
  nonempty : ∀ group ∈ groups, group.2 ≠ []
  keyed : ∀ group ∈ groups, ∀ node ∈ group.2, node.responseKey = group.1

/-- The addition of a field keeps the groups in order. -/
theorem Collected.addField_grouped (collected : Collected) (field : Field)
    (h : FieldGroups.Grouped collected.groups) :
    FieldGroups.Grouped (collected.addField field).groups where
  nodup := Entries.nodup_keys_insert _ _ h.nodup
  nonempty group hmem := by
    -- The group that the field is added to has at least the field.
    rcases Entries.mem_insert hmem with rfl | hmem
    · exact List.append_ne_nil_of_right_ne_nil _ (List.cons_ne_nil field [])
    · exact h.nonempty group hmem
  keyed group hmem node hnode := by
    rcases Entries.mem_insert hmem with rfl | hmem
    · rcases List.mem_append.mp hnode with hknown | hnew
      · -- A selection that is already there has been filed under the same key.
        cases hget : Entries.get? collected.groups field.responseKey with
        | none => simp [hget] at hknown
        | some nodes =>
          rw [hget, Option.getD_some] at hknown
          exact h.keyed _ (Entries.get?_mem hget) node hknown
      · rw [List.mem_singleton.mp hnew]
    · exact h.keyed group hmem node hnode

/-- **Collected fields are grouped by their response keys.** -/
theorem ExecutionContext.collectFields_grouped (ctx : ExecutionContext) (object : ObjectType)
    (selectionSets : List (List Selection)) :
    (ctx.collectFields object selectionSets).Grouped :=
  collectFields_induction Collected.addField_grouped
    ⟨List.nodup_nil, by simp, by simp⟩ selectionSets

/-! ### What collections depend on -/

namespace ExecutionContext

section Congruence

variable {ctx other : ExecutionContext}

mutual

/-- Contexts with the same variables, fragments and types collect the same fields. The recursion is
that of the selections. -/
theorem collectSelections_congr (hvars : ctx.vars = other.vars)
    (hfragments : ctx.fragments = other.fragments) (htypes : ctx.schema.types = other.schema.types)
    (object : ObjectType) (enter : FragmentDefinition → Collected → Collected)
    (selections : List Selection) (collected : Collected) :
    collectSelections ctx object enter selections collected =
      collectSelections other object enter selections collected :=
  match selections with
  | [] => rfl
  | selection :: rest => by
    rw [collectSelections, collectSelections,
      collectSelection_congr hvars hfragments htypes object enter selection collected,
      collectSelections_congr hvars hfragments htypes object enter rest]
termination_by structural selections

theorem collectSelection_congr (hvars : ctx.vars = other.vars)
    (hfragments : ctx.fragments = other.fragments) (htypes : ctx.schema.types = other.schema.types)
    (object : ObjectType) (enter : FragmentDefinition → Collected → Collected)
    (selection : Selection) (collected : Collected) :
    collectSelection ctx object enter selection collected =
      collectSelection other object enter selection collected :=
  match selection with
  | .field node => by
    rw [collectSelection, collectSelection, ← hvars]
  | .spread name directives => by
    rw [collectSelection, collectSelection, ← hvars, ← hfragments, ← htypes]
  | .inline condition directives selections => by
    rw [collectSelection, collectSelection, ← hvars, ← htypes,
      collectSelections_congr hvars hfragments htypes object enter selections collected]
termination_by structural selection

end

theorem collectFields_congr (hvars : ctx.vars = other.vars)
    (hfragments : ctx.fragments = other.fragments) (htypes : ctx.schema.types = other.schema.types)
    (object : ObjectType) (selectionSets : List (List Selection)) :
    ctx.collectFields object selectionSets = other.collectFields object selectionSets := by
  -- The fragments that are entered agree from the innermost ones on.
  have hwithin : ∀ depth, ctx.collectWithin object depth = other.collectWithin object depth := by
    intro depth
    induction depth with
    | zero =>
      funext selections collected
      exact collectSelections_congr hvars hfragments htypes object _ selections collected
    | succ depth ih =>
      funext selections collected
      rw [collectWithin, collectWithin, ih]
      exact collectSelections_congr hvars hfragments htypes object _ selections collected
  rw [collectFields, collectFields, ← hfragments, hwithin]

end Congruence

end ExecutionContext

end GraphQL
