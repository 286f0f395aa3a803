import GraphQL.Proofs.Document.ReachedFragments
import GraphQL.Proofs.Execution.Collection
import GraphQL.Proofs.Execution.Traversal

/-!
# Selections that nest

What is collected for an object are fields of its selections, or of fragments that these reach. Written
out with all fragments, the selections of such a field nest less deep than the selections that it was
collected from. So there is a measure that drops from every object to the objects below it, whatever the
values of the fields are.

* `NestWithin` — the fragments that some selection sets reach do not spread themselves, and the fields of
  the written out sets nest within a bound;
* `Traverses.nests`, `NestWithin.of_mem_collectFields` — what is collected nests within less;
* `Leads` — the paths into the response for an object: a key for each field, and after it no more indices
  than the type of the field has lists;
* `Leads.countP_isField_le` — hence they have no more keys than the bound.
-/

namespace GraphQL

namespace Selection

/-! ### Selections one by one -/

theorem mem_spreadsAmong {name : String} {selections : List Selection} :
    name ∈ spreadsAmong selections ↔ ∃ selection ∈ selections, name ∈ selection.spreads := by
  induction selections with
  | nil => simp [spreadsAmong]
  | cons selection rest ih => simp [spreadsAmong, ih]

theorem heights_le_iff {bound : Nat} {selections : List Selection} :
    heights selections ≤ bound ↔ ∀ selection ∈ selections, selection.height ≤ bound := by
  induction selections with
  | nil => simp [heights]
  | cons selection rest ih => simp [heights, ih]

theorem inlined_eq_map (fragments : Entries FragmentDefinition) (selections : List Selection) :
    inlined fragments selections =
      selections.map (replaceSpreads (Fragments.expansion fragments)) := by
  induction selections with
  | nil => rfl
  | cons selection rest ih => exact congrArg (replaceSpreads _ selection :: ·) ih

/-- Selections that are written out nest within a bound if each of them does. -/
theorem heights_inlined_le_iff {fragments : Entries FragmentDefinition} {bound : Nat}
    {selections : List Selection} :
    heights (inlined fragments selections) ≤ bound ↔ ∀ selection ∈ selections,
      (selection.replaceSpreads (Fragments.expansion fragments)).height ≤ bound := by
  rw [heights_le_iff, inlined_eq_map, List.forall_mem_map]

end Selection

theorem FieldNode.spreads_eq (node : Field) :
    node.spreads = Selection.spreadsAmong node.selections := by
  cases node
  rfl

theorem Fragments.SpreadsReached.of_mem {fragments : Entries FragmentDefinition}
    {root selections below : List Selection} {selection : Selection}
    (h : SpreadsReached fragments root selections) (hmem : selection ∈ selections)
    (hbelow : Selection.spreadsAmong below ⊆ selection.spreads) : SpreadsReached fragments root below :=
  fun name hname => h name (Selection.mem_spreadsAmong.mpr ⟨selection, hmem, hbelow hname⟩)

namespace ExecutionContext

variable {ctx : ExecutionContext} {object : ObjectType} {met met' : List String}
  {root selections : List Selection} {fields : List Field} {bound : Nat}

/-! ### What is collected nests less deep -/

/-- The selections below a field spread what is reached, and nest within less than a bound. -/
structure NodeWithin (ctx : ExecutionContext) (root : List Selection) (bound : Nat) (node : Field) :
    Prop where
  spreads : Fragments.SpreadsReached ctx.fragments root node.selections
  height : Selection.heights (Selection.inlined ctx.fragments node.selections) < bound

/-- Some selections spread what is reached, and nest within a bound. -/
structure AllWithin (ctx : ExecutionContext) (root : List Selection) (bound : Nat)
    (selections : List Selection) : Prop where
  spreads : Fragments.SpreadsReached ctx.fragments root selections
  heights : ∀ selection ∈ selections,
    (selection.replaceSpreads (Fragments.expansion ctx.fragments)).height ≤ bound

namespace AllWithin

theorem of_cons {selection : Selection} (h : ctx.AllWithin root bound (selection :: selections)) :
    ctx.AllWithin root bound selections where
  spreads name hname := h.spreads name (List.mem_append_right _ hname)
  heights other hmem := h.heights other (List.mem_cons_of_mem selection hmem)

/-- The selections of a fragment stand for its spread. -/
theorem of_fragment (hacyclic : Fragments.AcyclicFrom ctx.fragments root) {name : String}
    {directives : List Directive} {fragment : FragmentDefinition}
    (h : ctx.AllWithin root bound (.spread name directives :: selections))
    (hget : Entries.get? ctx.fragments name = some fragment) :
    ctx.AllWithin root bound fragment.selections := by
  have hreached : Fragments.ReachedFrom ctx.fragments root name :=
    h.spreads name List.mem_cons_self fragment hget
  refine ⟨hreached.spreadsReached hget, ?_⟩
  have hheight := h.heights _ List.mem_cons_self
  rw [Selection.replaceSpreads, Fragments.expansion_eq_of_reachedFrom hacyclic hreached hget,
    Selection.height] at hheight
  exact Selection.heights_inlined_le_iff.mp hheight

theorem of_inline {condition : Option String} {directives : List Directive} {below : List Selection}
    (h : ctx.AllWithin root bound (.inline condition directives below :: selections)) :
    ctx.AllWithin root bound below := by
  have hheight : Selection.heights (Selection.inlined ctx.fragments below) ≤ bound :=
    h.heights _ List.mem_cons_self
  exact ⟨h.spreads.of_mem List.mem_cons_self (List.Subset.refl _),
    Selection.heights_inlined_le_iff.mp hheight⟩

theorem of_field {node : Field} (h : ctx.AllWithin root bound (.field node :: selections)) :
    ctx.NodeWithin root bound node := by
  refine ⟨h.spreads.of_mem List.mem_cons_self (FieldNode.spreads_eq node ▸ List.Subset.refl _), ?_⟩
  have hheight : (node.inlined ctx.fragments).height ≤ bound := h.heights _ List.mem_cons_self
  rw [FieldNode.height_eq, FieldNode.inlined_selections] at hheight
  exact hheight

end AllWithin

/-- **What a walk comes across nests less deep** than the selections that it starts from. -/
theorem Traverses.nests (hacyclic : Fragments.AcyclicFrom ctx.fragments root)
    (h : Traverses ctx object met selections fields met') (hwithin : ctx.AllWithin root bound selections) :
    ∀ node ∈ fields, ctx.NodeWithin root bound node := by
  induction h with
  | done => exact fun _ hmem => absurd hmem List.not_mem_nil
  | excluded _ _ ih | otherInline _ _ _ ih | again _ _ _ ih | passed _ _ _ _ ih => exact ih hwithin.of_cons
  | field _ _ ih => exact List.forall_mem_cons.mpr ⟨hwithin.of_field, ih hwithin.of_cons⟩
  | inline _ _ _ _ ihbelow ihrest =>
    exact List.forall_mem_append.mpr ⟨ihbelow hwithin.of_inline, ihrest hwithin.of_cons⟩
  | entered _ _ hget _ _ _ ihbelow ihrest =>
    exact List.forall_mem_append.mpr
      ⟨ihbelow (hwithin.of_fragment hacyclic hget), ihrest hwithin.of_cons⟩

/-- Selection sets whose fields nest within a bound when all fragments are written out, none of those
that they reach spreading itself. -/
structure NestWithin (ctx : ExecutionContext) (bound : Nat) (selectionSets : List (List Selection)) :
    Prop where
  acyclic : Fragments.AcyclicFrom ctx.fragments selectionSets.flatten
  heights : Selection.heights (Selection.inlined ctx.fragments selectionSets.flatten) ≤ bound

/-- **The selections below a collected field nest within less** than those that it was collected
from. A field is one level, however many fragments it is found through; the bound is on fields, so
the walk through the fragments does not count. -/
theorem NestWithin.of_mem_collectFields {selectionSets : List (List Selection)}
    (h : ctx.NestWithin bound selectionSets) {group : String × List Field}
    (hgroup : group ∈ ctx.collectFields object selectionSets) :
    ∃ lower, bound = lower + 1 ∧ ctx.NestWithin lower (group.2.map FieldNode.selections) := by
  obtain ⟨fields, met, htraverses, hgroups⟩ := ctx.collectFields_traverses object selectionSets
  have hwithin : ctx.AllWithin selectionSets.flatten bound selectionSets.flatten :=
    ⟨Fragments.spreadsReached_self _ _, Selection.heights_inlined_le_iff.mp h.heights⟩
  have hfields := htraverses.nests h.acyclic hwithin
  have hnodes : ∀ node ∈ group.2, ctx.NodeWithin selectionSets.flatten bound node := by
    rw [hgroups] at hgroup
    exact FieldGroups.forall_mem_addAll (fun _ hmem => absurd hmem List.not_mem_nil) hfields group hgroup
  have hbelow : ∀ selection ∈ (group.2.map FieldNode.selections).flatten,
      ∃ node ∈ group.2, selection ∈ node.selections := by
    intro selection hmem
    obtain ⟨selections, hselections, hmem⟩ := List.mem_flatten.mp hmem
    obtain ⟨node, hnode, rfl⟩ := List.mem_map.mp hselections
    exact ⟨node, hnode, hmem⟩
  -- A group has a node, and the selections below that are not deeper than nothing.
  obtain ⟨node, hnode⟩ := List.exists_mem_of_ne_nil _
    ((ctx.collectFields_grouped object selectionSets).nonempty group hgroup)
  obtain ⟨lower, rfl⟩ := Nat.exists_eq_succ_of_ne_zero (Nat.ne_zero_of_lt (hnodes node hnode).height)
  refine ⟨lower, rfl, h.acyclic.of_spreadsReached ?_, ?_⟩
  · intro name hname
    obtain ⟨selection, hmem, hspread⟩ := Selection.mem_spreadsAmong.mp hname
    obtain ⟨node, hnode, hmem⟩ := hbelow selection hmem
    exact (hnodes node hnode).spreads name (Selection.mem_spreadsAmong.mpr ⟨selection, hmem, hspread⟩)
  · refine Selection.heights_inlined_le_iff.mpr fun selection hmem => ?_
    obtain ⟨node, hnode, hmem⟩ := hbelow selection hmem
    have hheight := Nat.le_of_lt_succ (hnodes node hnode).height
    exact Selection.heights_inlined_le_iff.mp hheight selection hmem

end ExecutionContext

/-! ### Paths into the response -/

/-- A step to a field, not to an item. -/
def PathSegment.isField : PathSegment → Bool
  | .field _ => true
  | .index _ => false

namespace ExecutionContext

/-- The paths into the response that selection sets give rise to on an object of a type. A path goes to
a field that is collected, from there through the lists of its type, one index for each at most, and on
from there with the selections of the field. -/
inductive Leads (ctx : ExecutionContext) : ObjectType → List (List Selection) → ErrorPath → Prop
  /-- The object itself. -/
  | here {object : ObjectType} {selectionSets : List (List Selection)} : Leads ctx object selectionSets []
  /-- A field. -/
  | field {object : ObjectType} {selectionSets : List (List Selection)} {key : String}
      {nodes : List Field} (hgroup : (key, nodes) ∈ ctx.collectFields object selectionSets) :
      Leads ctx object selectionSets [.field key]
  /-- A place inside the value of a field that the object type defines. -/
  | inside {object inner : ObjectType} {selectionSets : List (List Selection)} {key : String}
      {node : Field} {others : List Field} {definition : FieldDefinition} {indices : List Nat}
      {path : ErrorPath} (hgroup : (key, node :: others) ∈ ctx.collectFields object selectionSets)
      (hfield : object.field? node.name = some definition)
      (hlists : indices.length ≤ definition.type.wrapping.listCount)
      (hinner : Leads ctx inner ((node :: others).map FieldNode.selections) path) :
      Leads ctx object selectionSets (.field key :: (indices.map .index ++ path))

/-- **A path has no more keys than its selections nest deep.** -/
theorem Leads.countP_isField_le {ctx : ExecutionContext} {object : ObjectType}
    {selectionSets : List (List Selection)} {path : ErrorPath} {bound : Nat}
    (h : ctx.Leads object selectionSets path) (hnest : ctx.NestWithin bound selectionSets) :
    path.countP PathSegment.isField ≤ bound := by
  induction h generalizing bound with
  | here => exact Nat.zero_le _
  | field hgroup =>
    obtain ⟨lower, rfl, -⟩ := hnest.of_mem_collectFields hgroup
    exact Nat.succ_le_succ (Nat.zero_le _)
  | @inside _ _ _ _ _ _ _ indices path hgroup _ _ _ ih =>
    obtain ⟨lower, rfl, hbelow⟩ := hnest.of_mem_collectFields hgroup
    have hindices : (indices.map PathSegment.index).countP PathSegment.isField = 0 := by
      rw [List.countP_map]
      exact List.countP_eq_zero.mpr fun _ _ => Bool.false_ne_true
    have hinner := ih hbelow
    rw [List.countP_cons_of_pos rfl, List.countP_append, hindices]
    omega

end ExecutionContext

end GraphQL
