import GraphQL.Proofs.Execution.Answer
import GraphQL.Proofs.Execution.ReachedFields
import Mathlib.Data.List.Flatten

/-!
# Collections are complete, without duplicates

A collection files the fields of a traversal under their response keys, in the order in which it comes
across them. No field node of the document is among them twice: each selection set and each fragment
is walked through once, and no two of them have a node in common. And whatever can be reached is
among them, also when fragments spread each other in a circle.

* `Selection.nodesAmong`, `ExecutionContext.nodes` — the field nodes of selections and of all that an
  execution works with;
* `ExecutionContext.ownSets` — the selection sets of the operation and of each field node;
* `ownFields_perm_nodes` — every node stands in one of these sets, or in a fragment;
* `Traverses.fields_subperm_nodes` — hence a walk comes across no node twice;
* `collectFields_complete` — what a collection is, for every document;
* `group_selectionSets_subperm` — the sets of the nodes of a group can be collected next.
-/

namespace GraphQL

/-! ### The field nodes of a document -/

namespace Selection

mutual

/-- The field nodes that stand in a selection set itself, also in its inline fragments. -/
def ownFields : List Selection → List Field
  | [] => []
  | selection :: rest => ownFieldsOf selection ++ ownFields rest

/-- The field nodes that a selection puts into the set in which it stands. -/
def ownFieldsOf : Selection → List Field
  | .field node => [node]
  | .spread _ _ => []
  | .inline _ _ selections => ownFields selections

end

mutual

/-- The field nodes of a selection, at any depth. -/
def nodes : Selection → List Field
  | .field node => node :: nodesBelow node
  | .spread _ _ => []
  | .inline _ _ selections => nodesAmong selections

/-- The field nodes below a field node. -/
def nodesBelow : FieldNode Selection → List Field
  | ⟨_, _, _, _, selections, _⟩ => nodesAmong selections

/-- The field nodes of some selections, at any depth. -/
def nodesAmong : List Selection → List Field
  | [] => []
  | selection :: rest => nodes selection ++ nodesAmong rest

end

theorem ownFields_append (selections selections' : List Selection) :
    ownFields (selections ++ selections') = ownFields selections ++ ownFields selections' := by
  induction selections with
  | nil => rfl
  | cons selection rest ih => rw [List.cons_append, ownFields, ownFields, ih, List.append_assoc]

theorem ownFields_flatMap {α : Type} (f : α → List Selection) (items : List α) :
    ownFields (items.flatMap f) = items.flatMap fun item => ownFields (f item) := by
  induction items with
  | nil => rfl
  | cons item rest ih => rw [List.flatMap_cons, List.flatMap_cons, ownFields_append, ih]

mutual

/-- The nodes of a selection are those that it puts into its own set, and those in the sets of nodes. -/
theorem nodes_perm (selection : Selection) :
    (nodes selection).Perm
      (ownFieldsOf selection ++ (nodes selection).flatMap fun node => ownFields node.selections) :=
  match selection with
  | .field ⟨label, name, arguments, directives, selections, location⟩ => by
    rw [nodes, nodesBelow, ownFieldsOf, List.flatMap_cons]
    exact .cons _ (nodesAmong_perm selections)
  | .spread _ _ => .nil
  | .inline _ _ selections => by
    rw [nodes, ownFieldsOf]
    exact nodesAmong_perm selections
termination_by structural selection

theorem nodesAmong_perm (selections : List Selection) :
    (nodesAmong selections).Perm (ownFields selections ++
      (nodesAmong selections).flatMap fun node => ownFields node.selections) :=
  match selections with
  | [] => .nil
  | selection :: rest => by
    rw [nodesAmong, ownFields, List.flatMap_append, List.append_assoc]
    refine ((nodes_perm selection).append (nodesAmong_perm rest)).trans ?_
    rw [List.append_assoc]
    exact (List.perm_append_comm_assoc _ _ _).append_left _
termination_by structural selections

end

end Selection

namespace ExecutionContext

/-- The selections of the operation and of all fragments. -/
def written (ctx : ExecutionContext) : List Selection :=
  ctx.operation.selections ++ ctx.fragments.flatMap fun entry => entry.2.selections

/-- The field nodes of the operation and of all fragments. -/
def nodes (ctx : ExecutionContext) : List Field := Selection.nodesAmong ctx.written

/-- The selection sets that belong to the operation and to each field node. -/
def ownSets (ctx : ExecutionContext) : List (List Selection) :=
  ctx.operation.selections :: ctx.nodes.map FieldNode.selections

/-- Every node stands in the set of the operation, in that of another node or in that of a fragment. -/
theorem ownFields_perm_nodes (ctx : ExecutionContext) :
    (ctx.ownSets.flatMap Selection.ownFields ++
      ctx.fragments.flatMap fun entry => Selection.ownFields entry.2.selections).Perm ctx.nodes := by
  have hnodes : ctx.nodes.Perm ((Selection.ownFields ctx.operation.selections ++
      ctx.fragments.flatMap fun entry => Selection.ownFields entry.2.selections) ++
        ctx.nodes.flatMap fun node => Selection.ownFields node.selections) := by
    have hwritten := Selection.nodesAmong_perm ctx.written
    rw [written, Selection.ownFields_append, Selection.ownFields_flatMap] at hwritten
    exact hwritten
  -- The fragments stand between the operation and the nodes, where a walk over the text finds them.
  rw [ownSets, List.flatMap_cons, List.flatMap_map, List.append_assoc]
  refine (List.Perm.append_left _ List.perm_append_comm).trans ?_
  rw [← List.append_assoc]
  exact hnodes.symm

/-! ### No duplicates -/

section Subperm

variable {α β : Type}

theorem subperm_flatMap {items items' : List α} (h : items.Subperm items') (f : α → List β) :
    (items.flatMap f).Subperm (items'.flatMap f) := by
  obtain ⟨middle, hperm, hsublist⟩ := h
  exact ⟨middle.flatMap f, hperm.flatMap_right f, hsublist.flatMap f⟩

/-- What is found under distinct keys is part of a table. -/
theorem subperm_filterMap_get? (entries : Entries α) {names : List String} (h : names.Nodup) :
    (names.filterMap fun name => (Entries.get? entries name).map (name, ·)).Subperm entries := by
  refine List.subperm_of_subset (h.filterMap ?_) ?_
  -- An entry has its key in it, so different keys have different entries.
  · intro name name' entry hname hname'
    obtain ⟨_, -, rfl⟩ := Option.map_eq_some_iff.mp hname
    obtain ⟨_, -, heq⟩ := Option.map_eq_some_iff.mp hname'
    exact (congrArg Prod.fst heq).symm
  · intro entry hmem
    obtain ⟨name, -, hname⟩ := List.mem_filterMap.mp hmem
    obtain ⟨value, hget, rfl⟩ := Option.map_eq_some_iff.mp hname
    exact Entries.get?_mem hget

end Subperm

mutual

/-- What selections contribute are some of the fields that stand there. -/
theorem selectedAmong_sublist (vars : Variables) (types : TypeSystem) (object : ObjectType)
    (selections : List Selection) :
    (selectedAmong vars types object selections).Sublist (Selection.ownFields selections) :=
  match selections with
  | [] => .slnil
  | selection :: rest =>
    (selectedBy_sublist vars types object selection).append
      (selectedAmong_sublist vars types object rest)
termination_by structural selections

theorem selectedBy_sublist (vars : Variables) (types : TypeSystem) (object : ObjectType)
    (selection : Selection) :
    (selectedBy vars types object selection).Sublist (Selection.ownFieldsOf selection) :=
  match selection with
  | .field node => by
    -- A field stands for itself, if nothing leaves it out.
    rw [selectedBy, Selection.ownFieldsOf]
    split
    · exact .refl _
    · exact List.nil_sublist _
  -- The fields of a fragment that is spread stand in the fragment.
  | .spread _ _ => .slnil
  -- What stands inside of an inline fragment is part of the selection set around it.
  | .inline _ _ selections => by
    rw [selectedBy, Selection.ownFieldsOf]
    split
    · exact selectedAmong_sublist vars types object selections
    · exact List.nil_sublist _
termination_by structural selection

end

section Duplicates

variable {ctx : ExecutionContext} {object : ObjectType} {met names : List String}
  {selectionSets : List (List Selection)} {fields : List Field}

/-- What distinct fragments contribute is part of what stands in all fragments. -/
theorem contributed_subperm (ctx : ExecutionContext) (object : ObjectType) (h : names.Nodup) :
    (names.flatMap (ctx.contributed object)).Subperm
      (ctx.fragments.flatMap fun entry => Selection.ownFields entry.2.selections) := by
  -- Each name finds at most one fragment, and contributes part of its selection set.
  have hfound : (names.flatMap (ctx.contributed object)).Sublist
      ((names.filterMap fun name => (Entries.get? ctx.fragments name).map (name, ·)).flatMap
        fun entry => Selection.ownFields entry.2.selections) := by
    rw [List.filterMap_eq_flatMap_toList, List.flatMap_assoc]
    refine List.Sublist.flatMap_right names fun name _ => ?_
    rw [contributed]
    cases Entries.get? ctx.fragments name with
    | none => exact .slnil
    | some fragment =>
      rw [Option.map_some, Option.toList_some, List.flatMap_singleton]
      dsimp only
      split
      · exact selectedAmong_sublist _ _ _ _
      · exact List.nil_sublist _
  exact hfound.subperm.trans (subperm_flatMap (subperm_filterMap_get? ctx.fragments h) _)

/-- **A walk comes across no node twice** if it starts from distinct selection sets that belong to the
operation or to field nodes. -/
theorem Traverses.fields_subperm_nodes (hsets : selectionSets.Subperm ctx.ownSets)
    (h : Traverses ctx object [] selectionSets.flatten fields met) : fields.Subperm ctx.nodes := by
  obtain ⟨names, haccount⟩ := h.account
  have hselections : (selectedAmong ctx.vars ctx.schema.types object selectionSets.flatten).Subperm
      (ctx.ownSets.flatMap Selection.ownFields) := by
    refine (selectedAmong_sublist _ _ _ _).subperm.trans ?_
    rw [← List.flatMap_id, Selection.ownFields_flatMap]
    exact subperm_flatMap hsets _
  exact haccount.fields_perm.subperm.trans
    ((hselections.append (contributed_subperm ctx object haccount.nodup)).trans
      ctx.ownFields_perm_nodes.subperm)

end Duplicates

end ExecutionContext

/-! ### Groups of fields -/

namespace FieldGroups

/-- All fields of some groups. -/
def fields (groups : FieldGroups) : List Field := groups.flatMap Prod.snd

/-- The keys of grouped fields are in the order of their first occurrence. -/
theorem keys_addAll (fields : List Field) :
    Entries.keys (addAll [] fields) = (fields.map FieldNode.responseKey).eraseDups := by
  -- A field is added to the groups of those before it, so the induction is from the end.
  induction fields using List.reverseRecOn with
  | nil => rfl
  | append_singleton fields field ih =>
    rw [addAll_append, List.map_append, List.eraseDups_append, ← ih]
    change Entries.keys (add (addAll [] fields) field) = _
    have hkeys : field.responseKey ∈ Entries.keys (addAll [] fields) ↔
        field.responseKey ∈ fields.map FieldNode.responseKey := by rw [ih, List.mem_eraseDups]
    rw [List.removeAll, List.map_singleton, List.filter_singleton, List.elem_eq_contains]
    by_cases hmem : field.responseKey ∈ fields.map FieldNode.responseKey
    · rw [add, Entries.keys_insert_of_mem _ _ (hkeys.mpr hmem), List.contains_iff_mem.mpr hmem]
      exact (List.append_nil _).symm
    · rw [add, Entries.keys_insert_of_not_mem _ _ (mt hkeys.mp hmem),
        Bool.eq_false_iff.mpr (mt List.contains_iff_mem.mp hmem)]
      rfl

/-- What is grouped under a key are the fields with that response key, in order. -/
theorem get?_addAll_getD (fields : List Field) (key : String) :
    (Entries.get? (addAll [] fields) key).getD [] =
      fields.filter fun field => field.responseKey == key := by
  -- The induction is on the fields from the end, as each is added behind those before it.
  induction fields using List.reverseRecOn with
  | nil => rfl
  | append_singleton fields field ih =>
    rw [addAll_append, List.filter_append, ← ih]
    change (Entries.get? (add (addAll [] fields) field) key).getD [] = _
    -- The field is added at the end of its own group, which other keys do not find.
    by_cases hkey : field.responseKey = key
    · subst hkey
      rw [add, Entries.get?_insert_self]
      simp
    · rw [add, Entries.get?_insert_of_ne _ _ hkey]
      simp [hkey]

/-- The fields of a group with one field more. -/
theorem fields_insert {groups : FieldGroups} {key : String} (field : Field) :
    (FieldGroups.fields (Entries.insert groups key
      ((Entries.get? groups key).getD [] ++ [field]))).Perm (field :: FieldGroups.fields groups) := by
  induction groups with
  | nil => exact .refl _
  | cons group rest ih =>
    rw [Entries.insert, Entries.get?]
    split
    · rw [Option.getD_some, fields, List.flatMap_cons, List.append_assoc]
      exact List.perm_middle
    · rw [fields, List.flatMap_cons]
      exact (ih.append_left group.2).trans List.perm_middle

/-- Grouping loses no field, and adds none. -/
theorem fields_addAll_perm (fields : List Field) :
    (FieldGroups.fields (addAll [] fields)).Perm fields := by
  induction fields using List.reverseRecOn with
  | nil => exact .nil
  | append_singleton fields field ih =>
    rw [addAll_append]
    exact (fields_insert field).trans ((ih.cons field).trans (List.perm_append_singleton _ _).symm)

end FieldGroups

/-! ### Collections -/

open SchemaBuilder

section Complete

variable {query : String} {mutation subscription : Option String} {calls : List BuilderCall}
  {ctx : ExecutionContext} {object : ObjectType} {selectionSets : List (List Selection)}

/-- **A collection is complete, and without duplicates.** It is a walk through the selection sets that
ends, and the only one. The keys are distinct and in the order in which the walk comes across them
first. Each has at least one node, and has all nodes with that response key in the order of the walk. No
field node of the document is collected twice, and one is collected exactly if it can be reached. -/
theorem collectFields_complete
    (hfinish : (ofCalls query mutation subscription calls).finish = .ok ctx.schema)
    (hobject : ctx.schema.types.object? object.name = some object)
    (hsets : selectionSets.Subperm ctx.ownSets) :
    let groups := ctx.collectFields object selectionSets
    ∃ fields met,
      ctx.Traverses object [] selectionSets.flatten fields met ∧
      (∀ fields' met', ctx.Traverses object [] selectionSets.flatten fields' met' →
        fields' = fields ∧ met' = met) ∧
      (Entries.keys groups).Nodup ∧
      Entries.keys groups = (fields.map FieldNode.responseKey).eraseDups ∧
      (∀ group ∈ groups, group.2 ≠ [] ∧
        group.2 = fields.filter fun node => node.responseKey == group.1) ∧
      groups.fields.Subperm ctx.nodes ∧
      ∀ node, (∃ group ∈ groups, node ∈ group.2) ↔
        ctx.Reaches object selectionSets.flatten node := by
  intro groups
  -- The walk that the collection makes, and the fields that it comes across.
  obtain ⟨fields, met, htraverses, hcollected⟩ := ctx.collectFields_traverses object selectionSets
  have hgroups : groups = FieldGroups.addAll [] fields := hcollected
  have hgrouped : groups.Grouped := ctx.collectFields_grouped object selectionSets
  have hperm : groups.fields.Perm fields := hgroups ▸ FieldGroups.fields_addAll_perm fields
  -- What the schema says of a condition is what the object satisfies, as the schema is finished.
  have hmatches : ctx.MatchesWhatApplies object := conditionMatches_iff_applies hfinish hobject
  refine ⟨fields, met, htraverses, fun _ _ h => h.unique htraverses, hgrouped.nodup,
    hgroups ▸ FieldGroups.keys_addAll fields,
    fun group hmem => ⟨hgrouped.nonempty group hmem, ?_⟩,
    hperm.subperm.trans (htraverses.fields_subperm_nodes hsets), fun node => ?_⟩
  -- A group has the nodes with its key, in the order of the walk.
  · have hget : Entries.get? groups group.1 = some group.2 := Entries.get?_of_mem hgrouped.nodup hmem
    rw [← FieldGroups.get?_addAll_getD, ← hgroups, hget, Option.getD_some]
  -- What is collected are the fields of the walk, which are those that can be reached.
  · rw [← htraverses.mem_iff_reaches hmatches, ← hperm.mem_iff, FieldGroups.fields, List.mem_flatMap]

/-- **What is collected for the nodes of a group is a collection of the same kind**: their selection
sets are distinct ones of the document again. -/
theorem group_selectionSets_subperm (hsets : selectionSets.Subperm ctx.ownSets)
    {group : String × List Field} (hgroup : group ∈ ctx.collectFields object selectionSets) :
    (group.2.map FieldNode.selections).Subperm ctx.ownSets := by
  obtain ⟨fields, met, htraverses, hgroups⟩ := ctx.collectFields_traverses object selectionSets
  rw [hgroups] at hgroup
  have hpart : group.2.Sublist (FieldGroups.fields (FieldGroups.addAll [] fields)) := by
    obtain ⟨before, after, hsplit⟩ := List.append_of_mem hgroup
    rw [hsplit, FieldGroups.fields, List.flatMap_append, List.flatMap_cons]
    exact (List.sublist_append_left _ _).trans (List.sublist_append_right _ _)
  have hnodes : group.2.Subperm ctx.nodes :=
    hpart.subperm.trans ((FieldGroups.fields_addAll_perm fields).subperm.trans
      (htraverses.fields_subperm_nodes hsets))
  obtain ⟨middle, hperm, hsublist⟩ := hnodes
  exact ⟨middle.map FieldNode.selections, hperm.map _, (hsublist.map _).cons _⟩

end Complete

namespace Sample

/-- The schema in which the user has a name. -/
def namedSchema : Schema :=
  (ofCalls "Query" none none calls).finish.toOption.getD ⟨⟨[], "", none, none, []⟩, [], .standard⟩

/-- The user as an object type with a name. -/
def namedUser : ObjectType := { user with interfaces := ["Named"] }

def fragment (condition : String) (selections : List Selection) : FragmentDefinition :=
  ⟨condition, [], selections, ⟨1, 1⟩⟩

/-- Two fragments that spread each other, and one for another type. -/
def circularFragments : Entries FragmentDefinition :=
  [("name", fragment "Named" [selection "name" [], .spread "id" []]),
    ("id", fragment "Anyone" [.spread "name" [], selection "id" [], .spread "other" []]),
    ("other", fragment "Query" [selection "user" []])]

/-- A query that spreads them again and again, and one that is unknown. -/
def circularContext : ExecutionContext :=
  { ctx with
    schema := namedSchema
    fragments := circularFragments
    operation := { operation with
      selections := [.spread "id" [], .spread "unknown" [], .spread "name" [],
        .inline (some "User") [] [selection "name" [], .spread "id" []]] } }

end Sample

/-- The fields of the fragments that spread each other are collected, one of them also from the
operation itself. -/
theorem collectFields_complete_sample :
    Entries.keys (Sample.circularContext.collectFields Sample.namedUser
      [Sample.circularContext.operation.selections]) = ["name", "id"] ∧
    (FieldGroups.fields (Sample.circularContext.collectFields Sample.namedUser
      [Sample.circularContext.operation.selections])).length = 3 ∧
    ∃ fields met, Sample.circularContext.Traverses Sample.namedUser []
        [Sample.circularContext.operation.selections].flatten fields met ∧
      ["name", "id"] = (fields.map FieldNode.responseKey).eraseDups := by
  have hkeys : Entries.keys (Sample.circularContext.collectFields Sample.namedUser
      [Sample.circularContext.operation.selections]) = ["name", "id"] := by rfl
  have hsets : [Sample.circularContext.operation.selections].Subperm
      Sample.circularContext.ownSets :=
    (List.singleton_sublist.mpr List.mem_cons_self).subperm
  have hfinish : (ofCalls "Query" none none Sample.calls).finish =
      .ok Sample.circularContext.schema := rfl
  have hobject : Sample.circularContext.schema.types.object? Sample.namedUser.name =
      some Sample.namedUser := rfl
  obtain ⟨fields, met, htraverses, -, -, horder, -⟩ := collectFields_complete hfinish hobject hsets
  exact ⟨hkeys, rfl, fields, met, htraverses, hkeys ▸ horder⟩

end GraphQL
