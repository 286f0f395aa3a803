import GraphQL.Proofs.Document.Inlining
import GraphQL.Proofs.Execution.RepeatedNodes

/-!
# Collecting the fields of inlined selections

A collection enters every fragment once. Where the fragments are written out, their fields are found
as often as they were spread, so a collection finds fields that it has found before. These are added
to groups that have them already: nothing changes but that nodes are repeated.

* `selectedAmong` — the fields that selections without spreads contribute, in document order;
* `InStep` — the invariant that carries the comparison: the groups agree up to repetitions, and the
  fields of all fragments that have been entered and left again are there;
* `collectSpread_inStep` — the step at a spread, which is where the two sides differ;
* `collectSelections_inStep`, `collectWithin_inStep` — the run through selections and fragments;
* `collectFields_inlined` — hence collections agree up to repetitions;
* `height_le_of_mem_collectFields` — and what is collected nests less deep.
-/

namespace GraphQL

/-! ### The fields of selections without spreads -/

namespace ExecutionContext

mutual

/-- The fields that some selections contribute to an object, in document order. Spreads are not
followed. -/
def selectedAmong (vars : Variables) (types : TypeSystem) (object : ObjectType) :
    List Selection → List Field
  | [] => []
  | selection :: rest =>
      selectedBy vars types object selection ++ selectedAmong vars types object rest

/-- The fields that a selection contributes to an object. -/
def selectedBy (vars : Variables) (types : TypeSystem) (object : ObjectType) :
    Selection → List Field
  | .field node => if shouldInclude vars node.directives then [node] else []
  | .spread _ _ => []
  | .inline condition directives selections =>
      if shouldInclude vars directives && condition.all (conditionMatches types · object) then
        selectedAmong vars types object selections
      else []

end

section Unfolded

variable {ctx : ExecutionContext} {object : ObjectType}
  {enter : FragmentDefinition → Collected → Collected}

mutual

/-- Without fragments a collection adds the fields that the selections contribute. -/
theorem collectSelections_groups (hfragments : ctx.fragments = []) (selections : List Selection)
    (collected : Collected) : (collectSelections ctx object enter selections collected).groups =
      collected.groups.addAll (selectedAmong ctx.vars ctx.schema.types object selections) :=
  match selections with
  | [] => rfl
  | selection :: rest => by
    rw [collectSelections, collectSelections_groups hfragments rest,
      collectSelection_groups hfragments selection, selectedAmong, FieldGroups.addAll_append]
termination_by structural selections

theorem collectSelection_groups (hfragments : ctx.fragments = []) (selection : Selection)
    (collected : Collected) : (collectSelection ctx object enter selection collected).groups =
      collected.groups.addAll (selectedBy ctx.vars ctx.schema.types object selection) :=
  match selection with
  | .field node => by
    -- A field is added, or left out on both sides.
    rw [collectSelection, selectedBy]
    split <;> rfl
  | .spread name directives => by
    -- There are no fragments, so that nothing is spread.
    rw [collectSelection, selectedBy, hfragments]
    split <;> rfl
  | .inline condition directives selections => by
    rw [collectSelection, selectedBy]
    -- The selections of an inline fragment are collected as they would be in its place.
    split
    · exact collectSelections_groups hfragments selections collected
    · rfl
termination_by structural selection

end

theorem collectFields_eq_addAll (ctx : ExecutionContext) (hfragments : ctx.fragments = [])
    (object : ObjectType) (selectionSets : List (List Selection)) :
    ctx.collectFields object selectionSets = FieldGroups.addAll []
      (selectionSets.flatMap (selectedAmong ctx.vars ctx.schema.types object)) := by
  -- Without fragments a selection set adds what it selects, whatever number of fragments may be
  -- entered.
  have hwithin : ∀ (selections : List Selection) (collected : Collected),
      (ctx.collectWithin object ctx.fragments.length selections collected).groups =
        collected.groups.addAll (selectedAmong ctx.vars ctx.schema.types object selections) := by
    intro selections collected
    rw [hfragments]
    exact collectSelections_groups hfragments selections collected
  rw [collectFields]
  -- The sets add to what is collected one after the other, so that this is shown from any
  -- collection on.
  suffices h : ∀ collected : Collected, (selectionSets.foldl (fun collected selections =>
        ctx.collectWithin object ctx.fragments.length selections collected) collected).groups =
      collected.groups.addAll
        (selectionSets.flatMap (selectedAmong ctx.vars ctx.schema.types object)) from
    h .empty
  induction selectionSets with
  | nil => exact fun _ => rfl
  | cons selections rest ih =>
    intro collected
    rw [List.foldl_cons, ih, hwithin, List.flatMap_cons, FieldGroups.addAll_append]

end Unfolded

section Heights

variable {vars : Variables} {types : TypeSystem} {object : ObjectType} {node : Field}

mutual

theorem height_le_of_mem_selectedAmong (selections : List Selection)
    (h : node ∈ selectedAmong vars types object selections) :
    node.height ≤ Selection.heights selections :=
  match selections with
  | [] => absurd h List.not_mem_nil
  | selection :: rest => by
    rw [selectedAmong] at h
    rw [Selection.heights]
    rcases List.mem_append.mp h with hfirst | hrest
    · exact le_max_of_le_left (height_le_of_mem_selectedBy selection hfirst)
    · exact le_max_of_le_right (height_le_of_mem_selectedAmong rest hrest)
termination_by structural selections

theorem height_le_of_mem_selectedBy (selection : Selection)
    (h : node ∈ selectedBy vars types object selection) : node.height ≤ selection.height :=
  match selection with
  | .field other => by
    -- The field is the selection itself.
    rw [selectedBy] at h
    split at h
    · rw [List.mem_singleton.mp h, Selection.height]
    · exact absurd h List.not_mem_nil
  | .spread name directives => absurd h List.not_mem_nil
  | .inline condition directives selections => by
    -- The field is further inside, where the selections are less high.
    rw [selectedBy] at h
    rw [Selection.height]
    split at h
    · exact height_le_of_mem_selectedAmong selections h
    · exact absurd h List.not_mem_nil
termination_by structural selection

end

end Heights

/-- What is collected without fragments is no higher than the selections. -/
theorem height_le_of_mem_collectFields {ctx : ExecutionContext} (hfragments : ctx.fragments = [])
    {object : ObjectType} {selectionSets : List (List Selection)} {bound : Nat}
    (hsets : ∀ selections ∈ selectionSets, Selection.heights selections ≤ bound) :
    ∀ group ∈ ctx.collectFields object selectionSets, ∀ node ∈ group.2, node.height ≤ bound := by
  rw [collectFields_eq_addAll ctx hfragments]
  refine FieldGroups.forall_mem_addAll (fun _ hmem => absurd hmem List.not_mem_nil) ?_
  intro node hnode
  obtain ⟨selections, hmem, hselected⟩ := List.mem_flatMap.mp hnode
  exact (height_le_of_mem_selectedAmong selections hselected).trans (hsets selections hmem)

/-! ### In step -/

/-- The execution of the same operation with all fragments written out. -/
def inlined (ctx : ExecutionContext) : ExecutionContext :=
  { ctx with fragments := [], operation := ctx.operation.inlined ctx.fragments }

@[simp] theorem inlined_fragments (ctx : ExecutionContext) : ctx.inlined.fragments = [] := rfl

@[simp] theorem inlined_schema (ctx : ExecutionContext) : ctx.inlined.schema = ctx.schema := rfl

@[simp] theorem inlined_vars (ctx : ExecutionContext) : ctx.inlined.vars = ctx.vars := rfl

@[simp] theorem inlined_typeResolver (ctx : ExecutionContext) :
    ctx.inlined.typeResolver = ctx.typeResolver := rfl

@[simp] theorem inlined_rootType? (ctx : ExecutionContext) :
    ctx.inlined.rootType? = ctx.rootType? := rfl

/-- What a fragment contributes to an object, all spreads written out, is in the groups. -/
def HasFragment (ctx : ExecutionContext) (object : ObjectType) (groups : FieldGroups)
    (name : String) : Prop :=
  ∀ fragment, Entries.get? ctx.fragments name = some fragment →
    conditionMatches ctx.schema.types fragment.condition object = true →
    ∀ field ∈ selectedAmong ctx.vars ctx.schema.types object
      (Selection.inlined ctx.fragments fragment.selections), groups.Contains field

/-- How a collection compares with that of the inlined selections: the groups agree up to
repetitions, and what a fragment contributes is there if the fragment has been met and is not
pending, that is, has been left again. -/
structure InStep (ctx : ExecutionContext) (object : ObjectType) (pending : List String)
    (collected : Collected) (groups : FieldGroups) : Prop where
  repeated : FieldGroups.RepeatIn ctx.fragments collected.groups groups
  left : ∀ name ∈ collected.visited, name ∉ pending → ctx.HasFragment object groups name

section InStep

variable {ctx : ExecutionContext} {object : ObjectType} {pending : List String}
  {collected : Collected} {groups : FieldGroups}

/-- Fields that are there already do no harm on the inlined side. -/
theorem InStep.againAll (h : InStep ctx object pending collected groups) {fields : List Field}
    (hcontains : ∀ field ∈ fields, groups.Contains field) :
    InStep ctx object pending collected (groups.addAll fields) where
  repeated := h.repeated.againAll hcontains
  left name hvisited hpending fragment hget hmatches field hfield :=
    (h.left name hvisited hpending fragment hget hmatches field hfield).addAll fields

/-- A field is added on both sides. -/
theorem InStep.fresh (h : InStep ctx object pending collected groups) (node : Field) :
    InStep ctx object pending (collected.addField node)
      (groups.add (node.inlined ctx.fragments)) where
  repeated := h.repeated.fresh node
  left name hvisited hpending fragment hget hmatches field hfield :=
    (h.left name hvisited hpending fragment hget hmatches field hfield).add _

/-- A fragment is met, and pending until it is left. -/
theorem InStep.meet (h : InStep ctx object pending collected groups) (name : String) :
    InStep ctx object (name :: pending)
      { collected with visited := name :: collected.visited } groups where
  repeated := h.repeated
  left other hvisited hpending := by
    obtain ⟨hne, hpending⟩ := List.ne_and_not_mem_of_not_mem_cons hpending
    exact h.left other ((List.mem_cons.mp hvisited).resolve_left hne) hpending

/-- A fragment is left when all that it contributes is there. -/
theorem InStep.leave {name : String} (h : InStep ctx object (name :: pending) collected groups)
    (hfragment : ctx.HasFragment object groups name) :
    InStep ctx object pending collected groups where
  repeated := h.repeated
  left other hvisited hpending := by
    by_cases hname : other = name
    · rw [hname]
      exact hfragment
    · exact h.left other hvisited (List.not_mem_cons_of_ne_of_not_mem hname hpending)

/-- What a spread contributes when it is written out. -/
theorem selectedBy_expansion (hacyclic : Fragments.Acyclic ctx.fragments) {name : String}
    {fragment : FragmentDefinition} (hget : Entries.get? ctx.fragments name = some fragment)
    (directives : List Directive) :
    selectedBy ctx.vars ctx.schema.types object
        (Fragments.expansion ctx.fragments name directives) =
      if shouldInclude ctx.vars directives &&
          conditionMatches ctx.schema.types fragment.condition object then
        selectedAmong ctx.vars ctx.schema.types object
          (Selection.inlined ctx.fragments fragment.selections)
      else [] := by
  rw [Fragments.expansion_eq hacyclic hget, selectedBy, Option.all_some]

theorem selectedBy_expansion_unknown {name : String}
    (hget : Entries.get? ctx.fragments name = none) (directives : List Directive) :
    selectedBy ctx.vars ctx.schema.types object
      (Fragments.expansion ctx.fragments name directives) = [] := by
  rw [Fragments.expansion_unknown hget, selectedBy, selectedAmong, ite_self]

/-- What entering fragments that rank below a bound does: on the other side all that they contribute
is added. -/
def EntersInStep (ctx : ExecutionContext) (object : ObjectType) (bound : Nat)
    (enter : FragmentDefinition → Collected → Collected) : Prop :=
  ∀ (name : String) (fragment : FragmentDefinition) (pending : List String) (collected : Collected)
    (groups : FieldGroups), Entries.get? ctx.fragments name = some fragment →
    Fragments.rank ctx.fragments name < bound →
    (∀ other ∈ pending, Fragments.rank ctx.fragments name ≤ Fragments.rank ctx.fragments other) →
    InStep ctx object pending collected groups →
    InStep ctx object pending (enter fragment collected) (groups.addAll
      (selectedAmong ctx.vars ctx.schema.types object
        (Selection.inlined ctx.fragments fragment.selections)))

/-- A spread keeps a collection in step. The fragment is entered, or has been left before and adds
nothing new. It is not pending, as what is pending ranks higher. -/
theorem collectSpread_inStep (hacyclic : Fragments.Acyclic ctx.fragments) {bound : Nat}
    {enter : FragmentDefinition → Collected → Collected}
    (henter : EntersInStep ctx object bound enter)
    (hpending : ∀ other ∈ pending, bound ≤ Fragments.rank ctx.fragments other)
    (name : String) (directives : List Directive)
    (hrank : Fragments.RankBelow ctx.fragments bound [name])
    (h : InStep ctx object pending collected groups) :
    InStep ctx object pending
      (collectSelection ctx object enter (.spread name directives) collected)
      (groups.addAll (selectedBy ctx.vars ctx.schema.types object
        (Fragments.expansion ctx.fragments name directives))) := by
  cases hget : Entries.get? ctx.fragments name with
  | none =>
    -- An unknown fragment contributes nothing, whether or not it is met for the first time.
    have hnothing : ctx.HasFragment object groups name := by
      intro fragment hfragment
      rw [hget] at hfragment
      cases hfragment
    rw [selectedBy_expansion_unknown hget, FieldGroups.addAll_nil, collectSelection]
    split
    · exact h
    · simp only [hget]
      exact (h.meet name).leave hnothing
  | some fragment =>
    have hbound : Fragments.rank ctx.fragments name < bound :=
      hrank name List.mem_cons_self fragment hget
    -- A pending fragment has at least the rank of the bound, and this one has less.
    have hnotPending : name ∉ pending := fun hmem => by
      have := hpending name hmem
      omega
    rw [selectedBy_expansion hacyclic hget, collectSelection]
    by_cases hinclude : shouldInclude ctx.vars directives = true
    · simp only [hinclude, Bool.not_true, Bool.false_or, Bool.true_and]
      by_cases hmatches : conditionMatches ctx.schema.types fragment.condition object = true
      -- The condition matches: the inlined selections are those of the fragment.
      · rw [if_pos hmatches]
        split
        next hvisited =>
          -- All that it contributes is there.
          exact h.againAll
            (h.left name (by simpa using hvisited) hnotPending fragment hget hmatches)
        next =>
          simp only [hget, if_pos hmatches]
          refine (henter name fragment (name :: pending) _ groups hget hbound ?_
            (h.meet name)).leave ?_
          -- The fragment itself is now pending as well, and has the rank that its spreads stay
          -- below.
          · intro other hother
            rcases List.mem_cons.mp hother with rfl | hother
            · exact Nat.le_refl _
            · exact (hbound.trans_le (hpending other hother)).le
          -- Once it is left, all that it contributes is there.
          · intro definition hdefinition _ field hfield
            obtain rfl : fragment = definition := Option.some.inj (hget.symm.trans hdefinition)
            exact FieldGroups.contains_addAll_of_mem hfield
      -- The condition does not match, so that the fragment contributes nothing, met or not.
      · have hnothing : ctx.HasFragment object groups name := by
          intro definition hdefinition hmatches'
          obtain rfl : fragment = definition := Option.some.inj (hget.symm.trans hdefinition)
          exact absurd hmatches' hmatches
        rw [if_neg hmatches, FieldGroups.addAll_nil]
        split
        · exact h
        · simp only [hget, if_neg hmatches]
          exact (h.meet name).leave hnothing
    -- The spread is left out, and so are the inlined selections.
    · simp only [hinclude, Bool.not_false, Bool.true_or, Bool.false_and, if_true]
      exact h

section Step

variable {bound : Nat} {enter : FragmentDefinition → Collected → Collected}

mutual

/-- **Selections keep a collection in step.** The recursion is that of the selections; the fragments
that are spread are up to `enter`. -/
theorem collectSelections_inStep (hacyclic : Fragments.Acyclic ctx.fragments)
    (henter : EntersInStep ctx object bound enter)
    (hpending : ∀ other ∈ pending, bound ≤ Fragments.rank ctx.fragments other)
    (selections : List Selection) (collected : Collected) (groups : FieldGroups)
    (hrank : Fragments.RankBelow ctx.fragments bound (Selection.spreadsAmong selections))
    (h : InStep ctx object pending collected groups) :
    InStep ctx object pending (collectSelections ctx object enter selections collected)
      (groups.addAll (selectedAmong ctx.vars ctx.schema.types object
        (Selection.inlined ctx.fragments selections))) :=
  match selections with
  | [] => h
  | selection :: rest => by
    rw [collectSelections, Selection.inlined, Selection.replaceAmong, selectedAmong,
      FieldGroups.addAll_append]
    -- The rest goes on from what the first selection leaves.
    refine collectSelections_inStep hacyclic henter hpending rest _ _
      (fun name hname => hrank name (List.mem_append_right _ hname)) ?_
    exact collectSelection_inStep hacyclic henter hpending selection collected groups
      (fun name hname => hrank name (List.mem_append_left _ hname)) h
termination_by structural selections

theorem collectSelection_inStep (hacyclic : Fragments.Acyclic ctx.fragments)
    (henter : EntersInStep ctx object bound enter)
    (hpending : ∀ other ∈ pending, bound ≤ Fragments.rank ctx.fragments other)
    (selection : Selection) (collected : Collected) (groups : FieldGroups)
    (hrank : Fragments.RankBelow ctx.fragments bound selection.spreads)
    (h : InStep ctx object pending collected groups) :
    InStep ctx object pending (collectSelection ctx object enter selection collected)
      (groups.addAll (selectedBy ctx.vars ctx.schema.types object
        (selection.replaceSpreads (Fragments.expansion ctx.fragments)))) :=
  match selection with
  | .field node => by
    -- Inlining a field leaves its directives as they are.
    rw [collectSelection, Selection.replaceSpreads, ← FieldNode.inlined, selectedBy,
      FieldNode.inlined_directives]
    split
    · exact h.fresh node
    · exact h
  | .spread name directives => collectSpread_inStep hacyclic henter hpending name directives hrank h
  | .inline condition directives selections => by
    rw [collectSelection, Selection.replaceSpreads, selectedBy]
    split
    · exact collectSelections_inStep hacyclic henter hpending selections collected groups hrank h
    · exact h
termination_by structural selection

end

end Step

/-- Fragments may be entered as deep as they rank. The induction is on the depth. -/
theorem collectWithin_inStep (hacyclic : Fragments.Acyclic ctx.fragments) {depth bound : Nat}
    (hdepth : bound ≤ depth)
    (hpending : ∀ other ∈ pending, bound ≤ Fragments.rank ctx.fragments other)
    {selections : List Selection}
    (hrank : Fragments.RankBelow ctx.fragments bound (Selection.spreadsAmong selections))
    (h : InStep ctx object pending collected groups) :
    InStep ctx object pending (ctx.collectWithin object depth selections collected)
      (groups.addAll (selectedAmong ctx.vars ctx.schema.types object
        (Selection.inlined ctx.fragments selections))) := by
  induction depth generalizing bound pending selections collected groups with
  | zero =>
    refine collectSelections_inStep hacyclic ?_ hpending selections collected groups hrank h
    intro name fragment pending collected groups _ hlt
    omega
  | succ depth ih =>
    refine collectSelections_inStep hacyclic ?_ hpending selections collected groups hrank h
    intro name fragment pending collected groups hget hlt hpending h
    exact ih (by omega) hpending (Fragments.rankBelow_rank hacyclic hget) h

/-- **Collections agree up to repetitions** with those of the inlined selections. The induction is
on the selection sets, from the first one on: a repeated set contributes what is there already. -/
theorem collectFields_inlined (hacyclic : Fragments.Acyclic ctx.fragments)
    {selectionSets selectionSets' : List (List Selection)}
    (hsets : Repeats (Selection.inlined ctx.fragments) selectionSets selectionSets') :
    FieldGroups.RepeatIn ctx.fragments (ctx.collectFields object selectionSets)
      (ctx.inlined.collectFields object selectionSets') := by
  rw [collectFields_eq_addAll ctx.inlined rfl, collectFields]
  -- The stronger statement is that the collections stay in step with no fragment pending.
  suffices h : InStep ctx object [] (selectionSets.foldl (fun collected selections =>
        ctx.collectWithin object ctx.fragments.length selections collected) .empty)
      (FieldGroups.addAll []
        (selectionSets'.flatMap (selectedAmong ctx.vars ctx.schema.types object))) from
    h.repeated
  induction hsets with
  | nil => exact ⟨.nil, fun _ hmem => absurd hmem List.not_mem_nil⟩
  | fresh selections _ ih =>
    -- A new set is collected, and what it adds is what its inlined selections add.
    rw [List.foldl_append, List.flatMap_append, FieldGroups.addAll_append, List.flatMap_singleton]
    exact collectWithin_inStep hacyclic (Nat.le_refl _) (fun _ hmem => absurd hmem List.not_mem_nil)
      (Fragments.rankBelow_length hacyclic _) ih
  | again _ hmem ih =>
    -- The repeated set stands among the earlier ones: whatever it adds, they have added.
    rw [List.flatMap_append, FieldGroups.addAll_append, List.flatMap_singleton]
    exact ih.againAll fun field hfield =>
      FieldGroups.contains_addAll_of_mem (List.mem_flatMap.mpr ⟨_, hmem, hfield⟩)

end InStep

end ExecutionContext

end GraphQL
