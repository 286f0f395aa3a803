import GraphQL.Proofs.Execution.GrownTrees
import GraphQL.Proofs.Execution.NestedSelections
import GraphQL.Proofs.Wrapping.Lists

/-!
# Where the places of a response are

Every place that the tree of an execution has is at a path that the selections of the operation lead to,
however many levels of objects the resolvers return: values decide which of these places there are, not
where they may be.

The selections are followed from the operation, through fragments and collected fields, without
looking at values. A place of the tree is a path of such steps with the indices of lists in between,
of which a type has only so many.

* `CompletionTree.AllPlaces` — all places of a tree are at paths of some kind;
* `LeadsInside` — the paths below a field: indices for the lists of its type, and then on with its
  selections;
* `ofLayers_allPlaces`, `fieldPlace_allPlaces` — the values of a type, and the fields of an object;
* `growWithin_allPlaces`, `tree_allPlaces` — at every depth, and for the operation.
-/

namespace GraphQL

namespace CompletionTree

/-- All places of a tree, itself included, are at paths of some kind. -/
def AllPlaces (kind : ErrorPath → Prop) (tree : CompletionTree) : Prop :=
  ∀ path inner, tree.subtree? path = some inner → kind path

variable {kind kind' : ErrorPath → Prop} {tree : CompletionTree}

theorem AllPlaces.imp (h : tree.AllPlaces kind) (himp : ∀ path, kind path → kind' path) :
    tree.AllPlaces kind' :=
  fun path inner hinner => himp path (h path inner hinner)

theorem AllPlaces.of_places_eq_nil (h : tree.places = []) (hhere : kind []) : tree.AllPlaces kind := by
  intro path inner hinner
  obtain ⟨rfl, -⟩ := (subtree?_eq_some_iff h).mp hinner
  exact hhere

theorem AllPlaces.branch {shape : Shape} {places : List (Place CompletionTree)} (hhere : kind [])
    (h : ∀ place ∈ places, place.tree.AllPlaces fun rest => kind (place.segment :: rest)) :
    (branch shape places).AllPlaces kind := by
  intro path inner hinner
  cases path with
  | nil => exact hhere
  | cons segment rest =>
    rw [subtree?, Option.bind_eq_some_iff] at hinner
    obtain ⟨place, hchild, hinner⟩ := hinner
    obtain ⟨hmem, rfl⟩ := mem_of_child? hchild
    exact h place hmem rest inner hinner

/-- The null check makes no place. -/
theorem AllPlaces.required {nonNull : Bool} {info : ResolveInfo} {path : QueryPath}
    (h : tree.AllPlaces kind) : (required nonNull info path tree).AllPlaces kind := by
  by_cases hnull : tree = .leaf .null
  · subst hnull
    cases nonNull <;> exact .of_places_eq_nil rfl (h [] _ rfl)
  · rw [required_of_ne hnull]
    exact h

end CompletionTree

open CompletionTree

namespace ExecutionContext

variable {ctx : ExecutionContext} {grow : Grow}

/-- The paths below a field with some nodes, given a bound for the lists around its values. -/
def LeadsInside (ctx : ExecutionContext) (nodes : List Field) (lists : Nat) (path : ErrorPath) : Prop :=
  ∃ (indices : List Nat) (object : ObjectType) (rest : ErrorPath),
    path = indices.map .index ++ rest ∧ indices.length ≤ lists ∧
      ctx.Leads object (nodes.map FieldNode.selections) rest

/-- The trees that are grown for the selections of some nodes have their places where these lead. -/
def GrowsAlong (ctx : ExecutionContext) (grow : Grow) (nodes : List Field) : Prop :=
  ∀ object value path, (grow object (nodes.map FieldNode.selections) value path).AllPlaces
    (ctx.Leads object (nodes.map FieldNode.selections))

section Values

variable {info : ResolveInfo} (hgrow : ctx.GrowsAlong grow info.fieldNodes)

/-- The value of a field itself. -/
theorem leadsInside_nil (info : ResolveInfo) (lists : Nat) : ctx.LeadsInside info.fieldNodes lists [] :=
  ⟨[], info.parentType, [], rfl, Nat.zero_le _, .here⟩

theorem LeadsInside.index {nodes : List Field} {lists : Nat} {path : ErrorPath}
    (h : ctx.LeadsInside nodes lists path) (i : Nat) :
    ctx.LeadsInside nodes (lists + 1) (.index i :: path) := by
  obtain ⟨indices, object, rest, rfl, hlength, hleads⟩ := h
  exact ⟨i :: indices, object, rest, rfl, Nat.succ_le_succ hlength, hleads⟩

include hgrow

theorem ofObject_allPlaces (object : ObjectType) (path : QueryPath) (value : FieldValue) :
    (ofObject grow object info path value).AllPlaces (ctx.LeadsInside info.fieldNodes 0) := by
  -- Inside of the object a path goes on with one of its keys, and no index comes first.
  have hselected : (grow object (info.fieldNodes.map FieldNode.selections) value path).AllPlaces
      (ctx.LeadsInside info.fieldNodes 0) :=
    (hgrow object value path).imp fun rest hleads => ⟨[], object, rest, rfl, Nat.zero_le _, hleads⟩
  unfold ofObject
  cases object.isTypeOf with
  | none => exact hselected
  | some isTypeOf =>
    simp only
    split
    · exact hselected
    · exact .of_places_eq_nil rfl (leadsInside_nil info 0)
    · exact .of_places_eq_nil rfl (leadsInside_nil info 0)

/-- Only an object has places inside, and these are where its selections lead. Leaves and failures
have their own place only; for an abstract type the selections are those on the object type that it
resolves to. -/
theorem ofNamed_allPlaces (typeName : String) (path : QueryPath) (value : FieldValue) :
    (ofNamed ctx grow typeName info path value).AllPlaces (ctx.LeadsInside info.fieldNodes 0) := by
  -- Whatever has no places inside has its own place only, which the field leads to.
  have hhere : ctx.LeadsInside info.fieldNodes 0 [] := leadsInside_nil info 0
  have habstract : (ofAbstract ctx grow typeName info path value).AllPlaces
      (ctx.LeadsInside info.fieldNodes 0) := by
    unfold ofAbstract
    simp only
    split
    · exact .of_places_eq_nil rfl hhere
    · split
      · exact ofObject_allPlaces hgrow _ path value
      · exact .of_places_eq_nil rfl hhere
  unfold ofNamed
  cases ctx.schema.types.type? typeName with
  | none => exact .of_places_eq_nil rfl hhere
  | some type =>
    cases type with
    | scalar scalar =>
      simp only [ofScalar]
      split
      · exact .of_places_eq_nil rfl hhere
      · split <;> exact .of_places_eq_nil rfl hhere
    | enum type =>
      simp only [ofEnum]
      split <;> exact .of_places_eq_nil rfl hhere
    | object object => exact ofObject_allPlaces hgrow object path value
    | interface _ | union _ => exact habstract
    | inputObject _ => exact .of_places_eq_nil rfl hhere

/-- **The places of a raw value** are behind no more indices than there are lists around its type. The
induction is on these lists. -/
theorem ofLayers_allPlaces (typeName : String) (innerRequired : Bool) (wrappers : List ListWrapping)
    (path : QueryPath) (value : FieldValue) :
    (ofLayers ctx grow typeName innerRequired info wrappers path value).AllPlaces
      (ctx.LeadsInside info.fieldNodes wrappers.length) := by
  induction wrappers generalizing path value with
  | nil =>
    rw [ofLayers]
    -- No list is left, so that no index can follow.
    refine .required ?_
    split
    · exact .of_places_eq_nil rfl (leadsInside_nil info 0)
    · exact ofNamed_allPlaces hgrow typeName path value
  | cons wrapper inner ih =>
    have hhere : ctx.LeadsInside info.fieldNodes (inner.length + 1) [] := leadsInside_nil info _
    rw [ofLayers]
    split
    · exact .required (.of_places_eq_nil rfl hhere)
    · cases Completion.items? value with
      | none => exact .of_places_eq_nil rfl hhere
      | some items =>
        refine .branch hhere fun place hmem => ?_
        obtain ⟨i, hi, rfl⟩ := List.mem_mapIdx.mp hmem
        -- An index leads to an item, in which one list less is left.
        exact (ih (path.index i) items[i]).imp fun rest hleads => hleads.index i

end Values

/-! ### Fields and selections -/

section Fields

variable {object : ObjectType} {selectionSets : List (List Selection)} {key : String}

/-- The place of a field that its object type defines. A path into its value goes through as many
indices as the type has lists, and then on from an object to where the selections of the nodes lead.
-/
theorem definedPlace_allPlaces {node : Field} {others : List Field} {definition : FieldDefinition}
    (hgroup : (key, node :: others) ∈ ctx.collectFields object selectionSets)
    (hfield : object.field? node.name = some definition)
    (hgrow : ctx.GrowsAlong grow (node :: others)) (parent : FieldValue) (atRoot : Bool)
    {info : ResolveInfo} (hnodes : info.fieldNodes = node :: others)
    (htype : info.returnType = definition.type) :
    (ctx.definedPlace grow object parent atRoot key definition node info).tree.AllPlaces fun rest =>
      ctx.Leads object selectionSets (.field key :: rest) := by
  rw [definedPlace]
  split
  · exact .of_places_eq_nil rfl (.field hgroup)
  · exact .of_places_eq_nil rfl (.field hgroup)
  · simp only
    cases ctx.resolved object parent atRoot node info _ with
    | error why => exact .of_places_eq_nil rfl (.field hgroup)
    | ok result =>
      cases result with
      | error error => exact .of_places_eq_nil rfl (.field hgroup)
      | ok value =>
        -- A path into the value goes through the lists of the type, and on from an object in them.
        rw [← hnodes] at hgrow
        refine (ofLayers_allPlaces hgrow _ _ _ info.path value).imp ?_
        rintro _ ⟨indices, inner, rest, rfl, hlength, hleads⟩
        rw [hnodes] at hleads
        refine .inside hgroup hfield ?_ hleads
        rw [List.length_reverse, htype] at hlength
        exact hlength.trans_eq (Wrapping.length_listWrappings definition.type.wrapping)

theorem fieldPlace_allPlaces {nodes : List Field}
    (hgroup : (key, nodes) ∈ ctx.collectFields object selectionSets)
    (hgrow : ctx.GrowsAlong grow nodes) (parent : FieldValue) (path : QueryPath) :
    (ctx.fieldPlace grow object parent path key nodes).tree.AllPlaces fun rest =>
      ctx.Leads object selectionSets (.field key :: rest) := by
  cases nodes with
  -- Without a node there is nothing inside of the place.
  | nil => exact .of_places_eq_nil rfl (.field hgroup)
  | cons node others =>
    rw [fieldPlace]
    by_cases htypename : (node.name == "__typename") = true
    · simp only [if_pos htypename]
      exact .of_places_eq_nil rfl (.field hgroup)
    · simp only [if_neg htypename]
      cases hfield : object.field? node.name with
      | none => exact .of_places_eq_nil rfl (.field hgroup)
      | some definition => exact definedPlace_allPlaces hgroup hfield hgrow parent _ rfl rfl

theorem groupsTree_allPlaces
    (hgrow : ∀ group ∈ ctx.collectFields object selectionSets, ctx.GrowsAlong grow group.2)
    (parent : FieldValue) (path : QueryPath) :
    (ctx.groupsTree grow object parent path (ctx.collectFields object selectionSets)).AllPlaces
      (ctx.Leads object selectionSets) := by
  refine .branch .here (List.forall_mem_map.mpr fun group hgroup => ?_)
  rw [ctx.fieldPlace_segment]
  exact fieldPlace_allPlaces hgroup (hgrow group hgroup) parent path

/-- **Nested selections** have their places where they lead. The induction is on the depth that is
left. -/
theorem growWithin_allPlaces (depth : Nat) (object : ObjectType) (selectionSets : List (List Selection))
    (value : FieldValue) (path : QueryPath) :
    (ctx.growWithin depth object selectionSets value path).AllPlaces
      (ctx.Leads object selectionSets) := by
  induction depth generalizing object selectionSets value path with
  | zero => exact .of_places_eq_nil rfl .here
  | succ depth ih =>
    exact groupsTree_allPlaces (fun _ _ object value path => ih object _ value path) value path

end Fields

/-- The paths that the selections of the operation lead to from its root type. -/
def LeadsFromRoot (ctx : ExecutionContext) (path : ErrorPath) : Prop :=
  path = [] ∨ ∃ root, ctx.rootType? = some root ∧ ctx.Leads root [ctx.operation.selections] path

/-- **All places of an execution are where its operation leads.** -/
theorem tree_allPlaces (ctx : ExecutionContext) : ctx.tree.AllPlaces ctx.LeadsFromRoot := by
  rw [tree]
  cases hroot : ctx.rootType? with
  | none => exact .of_places_eq_nil rfl (.inl rfl)
  | some root =>
    refine AllPlaces.imp (groupsTree_allPlaces (fun _ _ object value path => ?_) _ _)
      fun path hleads => .inr ⟨root, hroot, hleads⟩
    exact growWithin_allPlaces ctx.depthLimit object _ value path

end ExecutionContext

end GraphQL
