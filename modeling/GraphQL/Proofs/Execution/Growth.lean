import GraphQL.Execution.Basic
import GraphQL.Proofs.Execution.Tree

/-!
# The tree of an execution

`ExecutionContext.tree` evaluates an operation by plain recursion: every resolver is asked for the
result that it ends with, and nothing is scheduled, absorbed or recorded. What comes out is the
completion tree of the response, which says of every place whether it fails, and how.

* `ExecutionContext.resolved` — the result that the resolver of a field ends with;
* `CompletionTree.ofLayers` — the tree of a raw value against a type;
* `ExecutionContext.fieldPlace` — the place of a field of an object;
* `ExecutionContext.tree` — the tree of the operation;
* `ExecutionContext.reachedTree` — the part of it that is executed. The root fields of a mutation
  that runs in turn are only reached up to the first error that is left to the root.
-/

namespace GraphQL

/-- The tree of an object of a type with some selection sets, at a place in the response. -/
abbrev Grow := ObjectType → List (List Selection) → FieldValue → QueryPath → CompletionTree

namespace CompletionTree

/-- A place of a field that fails. -/
def failure (info : ResolveInfo) (path : QueryPath) (message : String) (code : ErrorCode) :
    CompletionTree :=
  .failed (info.located path (.new message code))

/-- Makes null a failure of a place that must not be null. -/
def required (nonNull : Bool) (info : ResolveInfo) (path : QueryPath) :
    CompletionTree → CompletionTree
  | .leaf .null =>
      if nonNull then
        failure info path s!"Cannot return null for non-nullable field {info.fieldLabel}."
          .valueCompletionError
      else .leaf .null
  | tree => tree

/-- Only the null leaf is changed by the requirement of a value. -/
theorem required_of_ne {nonNull : Bool} {info : ResolveInfo} {path : QueryPath}
    {tree : CompletionTree} (h : tree ≠ .leaf .null) : required nonNull info path tree = tree := by
  cases tree with
  | leaf value => cases value <;> first | rfl | exact absurd rfl h
  | _ => rfl

/-- A scalar: the output of its serializer. -/
def ofScalar (scalar : ScalarType) (info : ResolveInfo) (path : QueryPath) (value : FieldValue) :
    CompletionTree :=
  match value.toValue? with
  | none =>
      failure info path s!"{scalar.name} cannot represent an object value: {value}"
        .valueCompletionError
  | some constant =>
      match scalar.serialize constant with
      | .ok result => .leaf result
      | .error message => failure info path message .valueCompletionError

/-- An enum: the name of the value. -/
def ofEnum (type : EnumType) (info : ResolveInfo) (path : QueryPath) (value : FieldValue) :
    CompletionTree :=
  match value.toValue?.bind type.serialize? with
  | some name => .leaf (.enum name)
  | none =>
      failure info path s!"Enum \"{type.name}\" cannot represent value: {value}"
        .valueCompletionError

/-- An object, if its type accepts the value. -/
def ofObject (grow : Grow) (object : ObjectType) (info : ResolveInfo) (path : QueryPath)
    (value : FieldValue) : CompletionTree :=
  let selected := grow object (info.fieldNodes.map FieldNode.selections) value path
  match object.isTypeOf with
  | none => selected
  | some isTypeOf =>
      match isTypeOf value with
      | .returned _ true => selected
      | .returned _ false =>
          failure info path s!"Expected value of type \"{object.name}\" but got: {value}."
            .valueCompletionError
      | .panicked _ message => .broken (.panicked message)

/-- A value of an interface or union type, as an object of the type that it resolves to. -/
def ofAbstract (ctx : ExecutionContext) (grow : Grow) (abstractType : String) (info : ResolveInfo)
    (path : QueryPath) (value : FieldValue) : CompletionTree :=
  let resolveType := (ctx.schema.typeHooks abstractType).resolveType.getD ctx.typeResolver
  match resolveType value info abstractType with
  | .panicked _ message => .broken (.panicked message)
  | .returned _ name =>
      match Completion.concreteType ctx.schema.types abstractType name with
      | .ok object => ofObject grow object info path value
      | .error fault =>
          failure info path (fault.message abstractType info) .typeResolutionError

/-- A value that is not null, against a type without wrappers. -/
def ofNamed (ctx : ExecutionContext) (grow : Grow) (typeName : String) (info : ResolveInfo)
    (path : QueryPath) (value : FieldValue) : CompletionTree :=
  match ctx.schema.types.type? typeName with
  | some (.scalar scalar) => ofScalar scalar info path value
  | some (.enum type) => ofEnum type info path value
  | some (.object object) => ofObject grow object info path value
  | some (.interface _) | some (.union _) => ofAbstract ctx grow typeName info path value
  | some (.inputObject _) | none =>
      failure info path
        s!"Field {info.fieldLabel} has a type {typeName} which cannot be used as an output type."
        .internalServerError

/-- A value against a type, given as its lists from the outermost one on. -/
def ofLayers (ctx : ExecutionContext) (grow : Grow) (typeName : String) (innerRequired : Bool)
    (info : ResolveInfo) : List ListWrapping → QueryPath → FieldValue → CompletionTree
  | [], path, value =>
      required innerRequired info path
        (if value.isNull then .leaf .null else ofNamed ctx grow typeName info path value)
  | wrapper :: inner, path, value =>
      if value.isNull then required (wrapper == .required) info path (.leaf .null)
      else
        match Completion.items? value with
        | some items =>
            .branch .list (items.mapIdx fun index item =>
              { segment := .index index
                nonNull := Completion.excludesNull innerRequired inner
                call := none
                tree :=
                  ofLayers ctx grow typeName innerRequired info inner (path.index index) item })
        | none =>
            failure info path
              s!"Expected Iterable, but did not find one for field \"{info.fieldLabel}\"."
              .valueCompletionError

/-- The raw value of a field, against the type of the field. -/
def ofValue (ctx : ExecutionContext) (grow : Grow) (info : ResolveInfo) (value : FieldValue) :
    CompletionTree :=
  let layers := info.returnType.wrapping.layers
  ofLayers ctx grow info.returnType.name layers.innerRequired info layers.lists.reverse info.path
    value

/-- The places that are reached one after the other, up to the first one that leaves an error. -/
def reachedInTurn : List (Place CompletionTree) → List (Place CompletionTree)
  | [] => []
  | place :: rest =>
      match place.completed with
      | .error _ => [place]
      | .ok _ => place :: reachedInTurn rest

/-- What is left of a tree when the places of its root are reached one after the other. -/
def inTurn : CompletionTree → CompletionTree
  | .branch shape places => .branch shape (reachedInTurn places)
  | tree => tree

/-- Places that leave no error are all reached. -/
theorem reachedInTurn_eq_self {places : List (Place CompletionTree)}
    (h : ∃ entries, completedPlaces (reachedInTurn places) = .ok entries) :
    reachedInTurn places = places := by
  induction places with
  | nil => rfl
  | cons place rest ih =>
    obtain ⟨entries, hentries⟩ := h
    rw [reachedInTurn] at hentries ⊢
    cases hplace : place.completed with
    | error error =>
      -- The last place that is reached leaves its error to all of them.
      rw [hplace] at hentries
      simp only [completedPlaces_cons, hplace] at hentries
      exact absurd hentries (by simp)
    | ok value =>
      -- The place leaves no error, so the ones after it are reached as far as they would be alone.
      rw [hplace] at hentries
      simp only [completedPlaces_cons, hplace] at hentries
      cases hrest : completedPlaces (reachedInTurn rest) with
      | error error => rw [hrest] at hentries; exact absurd hentries (by simp [Except.map])
      | ok values => exact congrArg (place :: ·) (ih ⟨values, hrest⟩)

/-- A tree whose places are reached one after the other is whole unless it leaves an error. -/
theorem inTurn_eq_self {tree : CompletionTree} {value : Value}
    (h : tree.inTurn.completed = .ok value) : tree.inTurn = tree := by
  cases tree with
  | branch shape places =>
    obtain ⟨entries, hentries, _⟩ := exists_entries_of_completed h
    exact congrArg (branch shape) (reachedInTurn_eq_self ⟨entries, hentries⟩)
  | _ => rfl

end CompletionTree

/-- A type excludes null exactly if its outermost layer does. -/
theorem TypeRef.isNonNull_eq_excludesNull (type : TypeRef) :
    type.isNonNull = Completion.excludesNull type.wrapping.layers.innerRequired
      type.wrapping.layers.lists.reverse := by
  unfold TypeRef.isNonNull Wrapping.isRequired Wrapping.outerFlag Wrapping.layers
    Wrapping.listWrappings
  cases type.wrapping.listCount with
  | zero => rfl
  | succ n =>
    -- The outermost list is the last one that was wrapped around the type.
    simp only [List.range_succ, List.map_append, List.map_singleton, List.reverse_append,
      List.reverse_singleton, List.singleton_append, Completion.excludesNull, Wrapping.listAt]
    cases type.wrapping.hasBit (Wrapping.listFlag n) <;> rfl

namespace ExecutionContext

/-- What the resolver of a field ends with, behind all interceptors and however long it takes. -/
def resolved (ctx : ExecutionContext) (object : ObjectType) (parent : FieldValue) (atRoot : Bool)
    (node : Field) (info : ResolveInfo) (arguments : Arguments) : Except Abort ResolverResult :=
  let resolver := ctx.middleware.wrap object.name node.name
    (ctx.baseResolver object.name node.name atRoot)
  (ctx.invoke resolver ⟨parent, arguments, info, ctx.context⟩).outcome

/-- The tree of a field whose resolver has been called. -/
def resolvedTree (ctx : ExecutionContext) (grow : Grow) (info : ResolveInfo) :
    Except Abort ResolverResult → CompletionTree
  | .error why => .broken why
  | .ok (.error error) => .failed (info.located info.path error.toGraphQLError)
  | .ok (.ok value) => .ofValue ctx grow info value

/-- The place of a field that its object type defines. -/
def definedPlace (ctx : ExecutionContext) (grow : Grow) (object : ObjectType) (parent : FieldValue)
    (atRoot : Bool) (key : String) (definition : FieldDefinition) (node : Field)
    (info : ResolveInfo) : Place CompletionTree :=
  let unresolved (tree : CompletionTree) : Place CompletionTree :=
    ⟨.field key, definition.type.isNonNull, none, tree⟩
  match Coercion.coerceArguments ctx.schema.types definition node ctx.vars with
  | .error .endless => unresolved (.broken .endless)
  | .error (.invalid error) => unresolved (.failed (error.withPath info.path.toErrorPath))
  | .ok arguments =>
      { segment := .field key
        nonNull := definition.type.isNonNull
        call := some ⟨info.path, parent, arguments⟩
        tree := ctx.resolvedTree grow info
          (ctx.resolved object parent atRoot node info arguments) }

/-- The place of the selections under one response key. The name of a type is never null, and a
field that is not defined always is. -/
def fieldPlace (ctx : ExecutionContext) (grow : Grow) (object : ObjectType) (parent : FieldValue)
    (parentPath : QueryPath) (key : String) (nodes : List Field) : Place CompletionTree :=
  let unresolved (nonNull : Bool) (tree : CompletionTree) : Place CompletionTree :=
    ⟨.field key, nonNull, none, tree⟩
  match nodes with
  | [] => unresolved false (.broken .outOfBounds)
  | node :: _ =>
      let path := parentPath.field key object.name
      if node.name == "__typename" then unresolved true (.leaf (.string object.name))
      else
        match object.field? node.name with
        | none => unresolved false (.failed (undefinedField object node nodes path))
        | some definition =>
            ctx.definedPlace grow object parent parentPath.isEmpty key definition node
              (ctx.resolveInfo object definition node.name nodes path)

theorem definedPlace_segment (ctx : ExecutionContext) (grow : Grow) (object : ObjectType)
    (parent : FieldValue) (atRoot : Bool) (key : String) (definition : FieldDefinition)
    (node : Field) (info : ResolveInfo) :
    (ctx.definedPlace grow object parent atRoot key definition node info).segment =
      .field key := by
  rw [definedPlace]
  split <;> rfl

theorem fieldPlace_segment (ctx : ExecutionContext) (grow : Grow) (object : ObjectType)
    (parent : FieldValue) (path : QueryPath) (key : String) (nodes : List Field) :
    (ctx.fieldPlace grow object parent path key nodes).segment = .field key := by
  cases nodes with
  | nil => rfl
  | cons node others =>
    rw [fieldPlace]
    by_cases htypename : (node.name == "__typename") = true
    · simp only [if_pos htypename]
    · simp only [if_neg htypename]
      cases object.field? node.name with
      | none => rfl
      | some definition => exact definedPlace_segment ..

theorem definedPlace_nonNull (ctx : ExecutionContext) (grow : Grow) (object : ObjectType)
    (parent : FieldValue) (atRoot : Bool) (key : String) (definition : FieldDefinition)
    (node : Field) (info : ResolveInfo) :
    (ctx.definedPlace grow object parent atRoot key definition node info).nonNull =
      definition.type.isNonNull := by
  rw [definedPlace]
  split <;> rfl

/-- The tree of an object from its fields. -/
def groupsTree (ctx : ExecutionContext) (grow : Grow) (object : ObjectType) (parent : FieldValue)
    (path : QueryPath) (groups : FieldGroups) : CompletionTree :=
  .branch .object (groups.map fun group => ctx.fieldPlace grow object parent path group.1 group.2)

/-- The trees of objects that nest at most as deep as the given number. -/
def growWithin (ctx : ExecutionContext) : Nat → Grow
  | 0 => fun _ _ _ _ => .broken .endless
  | depth + 1 => fun object selectionSets value path =>
      ctx.groupsTree (growWithin ctx depth) object value path
        (ctx.collectFields object selectionSets)

/-- The tree of all fields that the operation selects. -/
def tree (ctx : ExecutionContext) : CompletionTree :=
  match ctx.rootType? with
  | none => .broken .unreachable
  | some root =>
      ctx.groupsTree (ctx.growWithin ctx.depthLimit) root ctx.rootValue .empty
        (ctx.collectFields root [ctx.operation.selections])

/-- The tree of the fields that the execution of the operation reaches. -/
def reachedTree (ctx : ExecutionContext) : CompletionTree :=
  if ctx.isSerial then ctx.tree.inTurn else ctx.tree

/-- Where data are left at the root all fields are reached. -/
theorem reachedTree_eq_tree {ctx : ExecutionContext} {value : Value}
    (h : ctx.reachedTree.completed = .ok value) : ctx.reachedTree = ctx.tree := by
  rw [reachedTree] at h ⊢
  split at h
  · rw [if_pos ‹_›]
    exact CompletionTree.inTurn_eq_self h
  · rw [if_neg ‹_›]

end ExecutionContext

end GraphQL
