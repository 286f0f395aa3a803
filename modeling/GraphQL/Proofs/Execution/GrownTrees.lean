import GraphQL.Proofs.Execution.Collection
import GraphQL.Proofs.Execution.Growth
import GraphQL.Proofs.Execution.Positions

/-!
# The trees of executions are well formed

The errors of a tree that is grown for an operation name the positions where they occur, its objects
have distinct keys and its lists consecutive indices, and where a type excludes null there is a
failure instead.

Paths are handed down while trees grow, and positions are counted from the root when they are read.
The invariant ties the two together: the tree that is grown at a path has its errors at the path and
the position inside. What is grown for nested selections is assumed to have it, which the induction
on the depth discharges.

* `GrowsWell` — the invariant of the recursion over nested selections;
* `ofLayers_grown`, `fieldPlace_grown` — the values of a type and the fields of an object keep it;
* `growWithin_grown`, `tree_grown` — it holds at every depth, and for the operation;
* `isExposed_inTurn_iff`, `subtree?_of_reachedTree` — fields of the root that are not reached play
  no part in what is reached.
-/

namespace GraphQL

open CompletionTree

/-! ### Trees are well formed -/

/-- The trees that are grown for objects are well formed. -/
def GrowsWell (grow : Grow) : Prop :=
  ∀ object selectionSets value path,
    Grown (QueryPath.toErrorPath path) (grow object selectionSets value path)

namespace CompletionTree

variable {info : ResolveInfo} {path : QueryPath}

theorem failure_grown (message : String) (code : ErrorCode) :
    Grown path.toErrorPath (failure info path message code) := .failed rfl

theorem required_grown {nonNull : Bool} {tree : CompletionTree} (h : Grown path.toErrorPath tree) :
    Grown path.toErrorPath (required nonNull info path tree) := by
  by_cases htree : tree = .leaf .null
  · subst htree
    cases nonNull with
    | true => exact failure_grown _ _
    | false => exact .leaf _ _
  · rw [required_of_ne htree]
    exact h

/-- The null check leaves no null. -/
theorem required_ne_null (tree : CompletionTree) : required true info path tree ≠ .leaf .null := by
  by_cases htree : tree = .leaf .null
  · rw [htree]
    simp [required, failure]
  · rw [required_of_ne htree]
    exact htree

section Values

variable {ctx : ExecutionContext} {grow : Grow} (hgrow : GrowsWell grow)
include hgrow

theorem ofObject_grown (object : ObjectType) (value : FieldValue) :
    Grown path.toErrorPath (ofObject grow object info path value) := by
  unfold ofObject
  cases object.isTypeOf with
  | none => exact hgrow ..
  | some isTypeOf =>
    simp only
    split
    · exact hgrow ..
    · exact failure_grown _ _
    · exact .broken _ _

/-- The tree for a value of a named type is well formed. A tree has places inside only for an
object, and there they are those of the collected fields; an abstract type grows the tree of the
object type that it resolves to. -/
theorem ofNamed_grown (typeName : String) (value : FieldValue) :
    Grown path.toErrorPath (ofNamed ctx grow typeName info path value) := by
  -- An abstract type grows the tree of the object type that it resolves to.
  have habstract : Grown path.toErrorPath (ofAbstract ctx grow typeName info path value) := by
    unfold ofAbstract
    simp only
    split
    · exact .broken _ _
    · split
      · exact ofObject_grown hgrow ..
      · exact failure_grown _ _
  unfold ofNamed
  cases ctx.schema.types.type? typeName with
  | none => exact failure_grown _ _
  | some type =>
    cases type with
    | scalar scalar =>
      simp only [ofScalar]
      cases value.toValue? with
      | none => exact failure_grown _ _
      | some constant =>
        simp only
        cases scalar.serialize constant with
        | ok result => exact .leaf _ _
        | error message => exact failure_grown _ _
    | enum type =>
      simp only [ofEnum]
      cases value.toValue?.bind type.serialize? with
      | some name => exact .leaf _ _
      | none => exact failure_grown _ _
    | object object => exact ofObject_grown hgrow object value
    | interface _ | union _ => exact habstract
    | inputObject _ => exact failure_grown _ _

omit hgrow in
/-- Where the outermost layer excludes null there is no null. -/
theorem ofLayers_ne_null {typeName : String} {innerRequired : Bool} {wrappers : List ListWrapping}
    {value : FieldValue} (h : Completion.excludesNull innerRequired wrappers = true) :
    ofLayers ctx grow typeName innerRequired info wrappers path value ≠ .leaf .null := by
  cases wrappers with
  | nil =>
    obtain rfl : innerRequired = true := h
    exact required_ne_null _
  | cons wrapper inner =>
    -- Only the outermost list decides; what its items may be does not matter here.
    have hwrapper : (wrapper == .required) = true := h
    rw [ofLayers]
    split
    · rw [hwrapper]
      exact required_ne_null _
    · split <;> simp [failure]

/-- The tree of a raw value is well formed. The induction is on the list wrappers of the type: the
items of a list have the indices for segments, each path goes on with its index, and an item that
must not be null is checked inside. -/
theorem ofLayers_grown (typeName : String) (innerRequired : Bool) (wrappers : List ListWrapping)
    (value : FieldValue) :
    Grown path.toErrorPath (ofLayers ctx grow typeName innerRequired info wrappers path value) := by
  induction wrappers generalizing path value with
  | nil =>
    -- No list wrapper is left.
    rw [ofLayers]
    refine required_grown ?_
    split
    · exact .leaf _ _
    · exact ofNamed_grown hgrow typeName value
  | cons wrapper inner ih =>
    rw [ofLayers]
    split
    · exact required_grown (.leaf _ _)
    · cases Completion.items? value with
      | none => exact failure_grown _ _
      | some items =>
        simp only
        refine .branch ?_ (fun place hmem hnonNull => ?_) (fun place hmem => ?_)
        · -- The segments are the indices of the items.
          rw [Shape.Fits, List.length_map, List.length_mapIdx, List.mapIdx_eq_zipIdx_map,
            List.map_map, List.range_eq_range', ← List.zipIdx_map_snd, List.map_map]
          rfl
        -- An item that must not be null is not null, as its layers see to it.
        · obtain ⟨i, hi, rfl⟩ := List.mem_mapIdx.mp hmem
          exact ofLayers_ne_null hnonNull
        -- The place of an item is the place of the list and the index.
        · obtain ⟨i, hi, rfl⟩ := List.mem_mapIdx.mp hmem
          have hpath : (path.index i).toErrorPath = path.toErrorPath ++ [.index i] :=
            QueryPath.segments_child ..
          rw [← hpath]
          exact ih _

end Values

end CompletionTree

namespace ExecutionContext

variable {ctx : ExecutionContext} {grow : Grow} (hgrow : GrowsWell grow)
include hgrow

/-- The place of a field with a definition: its tree is well formed, and not null where the type
excludes null. -/
theorem definedPlace_grown (object : ObjectType) (parent : FieldValue) (atRoot : Bool)
    (key : String) {definition : FieldDefinition} (node : Field) {info : ResolveInfo}
    (htype : info.returnType = definition.type) :
    let place := ctx.definedPlace grow object parent atRoot key definition node info
    Grown info.path.toErrorPath place.tree ∧ (place.nonNull = true → place.tree ≠ .leaf .null) := by
  rw [definedPlace]
  cases Coercion.coerceArguments ctx.schema.types definition node ctx.vars with
  | error failure =>
    cases failure with
    | endless => exact ⟨.broken _ _, fun _ => by simp⟩
    | invalid error => exact ⟨.failed rfl, fun _ => by simp⟩
  | ok arguments =>
    simp only
    cases ctx.resolved object parent atRoot node info arguments with
    | error why => exact ⟨.broken _ _, fun _ => by simp [resolvedTree]⟩
    | ok result =>
      cases result with
      | error error => exact ⟨.failed rfl, fun _ => by simp [resolvedTree]⟩
      | ok value =>
        -- The type of the place is the type that the value is completed against.
        refine ⟨ofLayers_grown hgrow .., fun hnonNull => ofLayers_ne_null ?_⟩
        rw [htype, ← TypeRef.isNonNull_eq_excludesNull]
        exact hnonNull

theorem fieldPlace_grown (object : ObjectType) (parent : FieldValue) (path : QueryPath)
    (key : String) (nodes : List Field) :
    let place := ctx.fieldPlace grow object parent path key nodes
    Grown (path.toErrorPath ++ [.field key]) place.tree ∧
      (place.nonNull = true → place.tree ≠ .leaf .null) := by
  -- The place of the field is the place of the object and the key.
  have hpath : (path.field key object.name).toErrorPath = path.toErrorPath ++ [.field key] :=
    QueryPath.segments_child ..
  rw [← hpath]
  cases nodes with
  | nil => exact ⟨.broken _ _, fun h => absurd h (by simp [fieldPlace])⟩
  | cons node others =>
    rw [fieldPlace]
    by_cases htypename : (node.name == "__typename") = true
    · simp only [if_pos htypename]
      exact ⟨.leaf _ _, fun _ => by simp⟩
    · simp only [if_neg htypename]
      cases object.field? node.name with
      | none => exact ⟨.failed rfl, fun _ => by simp⟩
      | some definition =>
        have htype : (ctx.resolveInfo object definition node.name (node :: others)
          (path.field key object.name)).returnType = definition.type := rfl
        exact definedPlace_grown hgrow object parent path.isEmpty key node htype

/-- The tree of an object is well formed: its keys are those of the collected groups. -/
theorem groupsTree_grown (object : ObjectType) (parent : FieldValue) (path : QueryPath)
    (selectionSets : List (List Selection)) :
    Grown path.toErrorPath
      (ctx.groupsTree grow object parent path (ctx.collectFields object selectionSets)) := by
  refine .branch ⟨_, (ctx.collectFields_grouped object selectionSets).nodup, ?_⟩ ?_ ?_
  · rw [Entries.keys, List.map_map, List.map_map]
    exact List.map_congr_left fun group _ => ctx.fieldPlace_segment ..
  · rw [List.forall_mem_map]
    exact fun group _ => (fieldPlace_grown hgrow object parent path group.1 group.2).2
  · rw [List.forall_mem_map]
    intro group _
    rw [ctx.fieldPlace_segment]
    exact (fieldPlace_grown hgrow object parent path group.1 group.2).1

omit hgrow in
/-- **Trees are well formed at every depth.** -/
theorem growWithin_grown (depth : Nat) : GrowsWell (ctx.growWithin depth) := by
  induction depth with
  | zero => exact fun _ _ _ path => .broken path.toErrorPath .endless
  | succ depth ih =>
    exact fun object selectionSets value path => groupsTree_grown ih object value path selectionSets

omit hgrow in
/-- **The tree of an operation is well formed.** -/
theorem tree_grown : Grown [] ctx.tree := by
  rw [tree]
  cases ctx.rootType? with
  | none => exact .broken _ _
  | some root =>
    exact groupsTree_grown (growWithin_grown ctx.depthLimit) root ctx.rootValue .empty _

end ExecutionContext

/-! ### Places that are reached -/

theorem Shape.Fits.of_initial {shape : Shape} {segments others : List PathSegment}
    (h : shape.Fits segments) (hinit : others <+: segments) : shape.Fits others := by
  rw [List.prefix_iff_eq_take.mp hinit]
  cases shape with
  | list =>
    rw [Fits] at h ⊢
    rw [h, ← List.map_take, List.length_map, List.take_range, List.length_range]
  | object =>
    obtain ⟨keys, hnodup, rfl⟩ := h
    exact ⟨keys.take others.length, hnodup.sublist (List.take_sublist _ _), List.map_take.symm⟩

namespace CompletionTree

variable {tree : CompletionTree} {base path : ErrorPath}

theorem reachedInTurn_initial (places : List (Place CompletionTree)) :
    reachedInTurn places <+: places := by
  induction places with
  | nil => exact List.prefix_rfl
  | cons place rest ih =>
    rw [reachedInTurn]
    cases place.completed with
    | error error => exact ⟨rest, rfl⟩
    | ok value => exact List.prefix_cons_inj place |>.mpr ih

theorem places_inTurn_initial (tree : CompletionTree) : tree.inTurn.places <+: tree.places := by
  cases tree with
  | branch shape places => exact reachedInTurn_initial places
  | _ => exact List.prefix_rfl

/-- A reached place is found in the whole tree as well. -/
theorem child?_of_inTurn {segment : PathSegment} {place : Place CompletionTree}
    (h : tree.inTurn.child? segment = some place) : tree.child? segment = some place :=
  (places_inTurn_initial tree).find?_eq_some h

/-- What is left of a well-formed tree is well formed. -/
theorem inTurn_grown (h : Grown base tree) : Grown base tree.inTurn := by
  cases h with
  | @branch _ shape places hfits hnull h =>
    have hinit := reachedInTurn_initial places
    exact .branch (hfits.of_initial (hinit.map _))
      (fun place hmem => hnull place (hinit.subset hmem))
      fun place hmem => h place (hinit.subset hmem)
  | broken _ why => exact .broken _ why
  | failed h => exact .failed h
  | leaf _ value => exact .leaf _ value

/-- What is found among the reached places is found in the whole tree. -/
theorem subtree?_of_inTurn {error : GraphQLError}
    (h : tree.inTurn.subtree? path = some (.failed error)) :
    tree.subtree? path = some (.failed error) := by
  cases path with
  | nil =>
    cases tree with
    -- A branch is no failure.
    | branch shape places => exact absurd h (by simp [inTurn, subtree?])
    | _ => exact h
  | cons segment rest =>
    rw [subtree?, Option.bind_eq_some_iff] at h
    obtain ⟨place, hchild, h⟩ := h
    rw [subtree?_cons (child?_of_inTurn hchild), h]

/-- Whether a reached failure is exposed does not depend on the places that are not reached. -/
theorem isExposed_inTurn_iff {inner : CompletionTree}
    (h : tree.inTurn.subtree? path = some inner) :
    tree.inTurn.IsExposed path ↔ tree.IsExposed path := by
  cases path with
  | nil => exact ⟨fun _ => isExposed_nil, fun _ => isExposed_nil⟩
  | cons segment rest =>
    rw [subtree?, Option.bind_eq_some_iff] at h
    obtain ⟨place, hchild, -⟩ := h
    rw [isExposed_cons hchild, isExposed_cons (child?_of_inTurn hchild)]

end CompletionTree

namespace ExecutionContext

variable {ctx : ExecutionContext}

theorem reachedTree_grown : Grown [] ctx.reachedTree := by
  rw [reachedTree]
  split
  · exact inTurn_grown tree_grown
  · exact tree_grown

/-- A failure that is reached is one of the whole tree, and exposed there if it is where it is
reached. -/
theorem subtree?_of_reachedTree {path : ErrorPath} {error : GraphQLError}
    (h : ctx.reachedTree.subtree? path = some (.failed error)) :
    ctx.tree.subtree? path = some (.failed error) ∧
      (ctx.reachedTree.IsExposed path ↔ ctx.tree.IsExposed path) := by
  rw [reachedTree] at h ⊢
  split at h
  · rw [if_pos ‹_›]
    exact ⟨subtree?_of_inTurn h, isExposed_inTurn_iff h⟩
  · rw [if_neg ‹_›]
    exact ⟨h, .rfl⟩

end ExecutionContext

end GraphQL
