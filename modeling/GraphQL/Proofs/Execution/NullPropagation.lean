import GraphQL.Proofs.Execution.Answer
import GraphQL.Proofs.Execution.GrownTrees
import GraphQL.Proofs.Execution.Nulls
import GraphQL.Proofs.Schema.Finish

/-!
# Null propagation is exact

The data of a response are null exactly where they have to be: in place of a failure, at the last
position on the way to it that may be null, and where a value is null without any failure.

There are two things to compare. The engine hands errors outwards, from a failure to the first
position that may be null; the statement looks inwards, from the root along the path of a failure. In a
tree both come to the last nullable position on the way, which `Positions` says once and for all, so
what is left here is to read data and logs off the tree.

* `ofLayers_eq_leaf_null_iff`, `resolvedTree_eq_leaf_null_iff` — what it takes for a value to be
  null by itself;
* `exists_rootType_of_build` — an operation that is executed has a root type;
* `Answer.mem_failures_iff` — the failures that are logged are those at the positions that fail;
* `Answer.data_null_iff`, `Answer.exists_value` — the data as a whole, and the positions in them;
* `null_propagation` — both together, for every request.
-/

namespace GraphQL

open CompletionTree

/-! ### Values that are null by themselves -/

namespace CompletionTree

variable {ctx : ExecutionContext} {grow : Grow} {info : ResolveInfo} {path : QueryPath}
  {value : FieldValue}

theorem required_eq_leaf_null_iff {nonNull : Bool} {tree : CompletionTree} :
    required nonNull info path tree = .leaf .null ↔ nonNull = false ∧ tree = .leaf .null := by
  by_cases htree : tree = .leaf .null
  · rw [htree]
    cases nonNull <;> simp [required, failure]
  · rw [required_of_ne htree]
    exact ⟨fun h => absurd h htree, fun h => absurd h.2 htree⟩

section Objects

variable (hgrow : ∀ object selectionSets value path,
  grow object selectionSets value path ≠ .leaf .null)
include hgrow

theorem ofObject_ne_null (object : ObjectType) :
    ofObject grow object info path value ≠ .leaf .null := by
  unfold ofObject
  cases object.isTypeOf with
  | none => exact hgrow _ _ _ _
  | some isTypeOf =>
    simp only
    split
    · exact hgrow _ _ _ _
    · simp [failure]
    · simp

theorem ofAbstract_ne_null (abstractType : String) :
    ofAbstract ctx grow abstractType info path value ≠ .leaf .null := by
  unfold ofAbstract
  simp only
  split
  · simp
  · split
    · exact ofObject_ne_null hgrow _
    · simp [failure]

/-- Of the values that are not null only a scalar can have the output null. -/
theorem ofNamed_eq_leaf_null_iff {typeName : String} :
    ofNamed ctx grow typeName info path value = .leaf .null ↔
      ∃ scalar constant, ctx.schema.types.type? typeName = some (.scalar scalar) ∧
        value.toValue? = some constant ∧ scalar.serialize constant = .ok .null := by
  unfold ofNamed
  cases htype : ctx.schema.types.type? typeName with
  | none => simp [failure]
  | some type =>
    cases type with
    | scalar scalar =>
      simp only [ofScalar]
      cases value.toValue? with
      | none => simp [failure]
      -- A scalar can put out null, as any value.
      | some constant => cases hserialize : scalar.serialize constant <;> simp [failure, hserialize]
    | enum type =>
      -- Names are never null.
      simp only [ofEnum]
      cases value.toValue?.bind type.serialize? <;> simp [failure]
    | object object => simp [ofObject_ne_null hgrow]
    | interface _ | union _ => simp [ofAbstract_ne_null hgrow]
    | inputObject _ => simp [failure]

/-- **A value is null by itself** where its type may be null and the raw value is null or is output
as null by the serializer of its scalar. -/
theorem ofLayers_eq_leaf_null_iff {typeName : String} {innerRequired : Bool}
    {wrappers : List ListWrapping} :
    ofLayers ctx grow typeName innerRequired info wrappers path value = .leaf .null ↔
      Completion.excludesNull innerRequired wrappers = false ∧
        (value.isNull = true ∨ wrappers = [] ∧
          ∃ scalar constant, ctx.schema.types.type? typeName = some (.scalar scalar) ∧
            value.toValue? = some constant ∧ scalar.serialize constant = .ok .null) := by
  cases wrappers with
  | nil =>
    -- A raw null and an output of null meet the same check.
    have hnamed : ofNamed ctx grow typeName info path value = .leaf .null ↔ _ :=
      ofNamed_eq_leaf_null_iff hgrow
    rw [ofLayers, required_eq_leaf_null_iff, Completion.excludesNull, ← hnamed]
    by_cases hnull : value.isNull = true <;> simp [hnull]
  | cons wrapper inner =>
    rw [ofLayers]
    by_cases hnull : value.isNull = true
    · rw [if_pos hnull, required_eq_leaf_null_iff]
      simp [hnull, Completion.excludesNull]
    · rw [if_neg hnull]
      cases Completion.items? value <;> simp [hnull, failure]

end Objects

end CompletionTree

namespace ExecutionContext

/-- Objects are not null. -/
theorem growWithin_ne_null (ctx : ExecutionContext) (depth : Nat) (object : ObjectType)
    (selectionSets : List (List Selection)) (value : FieldValue) (path : QueryPath) :
    ctx.growWithin depth object selectionSets value path ≠ .leaf .null := by
  cases depth <;> simp [growWithin, groupsTree]

/-- **A field is null by itself** exactly if its resolver returns a value, its type may be null, and
the value is null or output as null. -/
theorem resolvedTree_eq_leaf_null_iff {ctx : ExecutionContext} {depth : Nat} {info : ResolveInfo}
    {result : Except Abort ResolverResult} :
    ctx.resolvedTree (ctx.growWithin depth) info result = .leaf .null ↔
      ∃ value, result = .ok (.ok value) ∧ info.returnType.isNonNull = false ∧
        (value.isNull = true ∨ info.returnType.wrapping.layers.lists.reverse = [] ∧
          ∃ scalar constant, ctx.schema.types.type? info.returnType.name = some (.scalar scalar) ∧
            value.toValue? = some constant ∧ scalar.serialize constant = .ok .null) := by
  cases result with
  | error why => simp [resolvedTree]
  | ok result =>
    cases result with
    | error error => simp [resolvedTree]
    | ok value =>
      rw [resolvedTree, ofValue, ofLayers_eq_leaf_null_iff (ctx.growWithin_ne_null depth),
        -- That the type of the field may be null is that of its outermost wrapper.
        ← TypeRef.isNonNull_eq_excludesNull]
      constructor
      · exact fun h => ⟨value, rfl, h⟩
      · rintro ⟨found, hfound, h⟩
        obtain rfl : value = found := Except.ok.inj (Except.ok.inj hfound)
        exact h

/-! ### Root types -/

variable {ctx : ExecutionContext}

/-- An operation is only executed where it is supported: selecting it has checked that there is a type for
it. -/
theorem supports_of_build {schema : Schema} {document : Document} {params : ExecutionParams}
    (hbuild : build schema document params = .ok (.ok ctx)) :
    supports ctx.schema.types ctx.operation.type = true := by
  obtain ⟨operation, vars, hselect, -, rfl⟩ := build_eq_ok_iff.mp hbuild
  obtain ⟨selected, -, hselected⟩ := bind_eq_ok.mp hselect
  split at hselected
  next hsupports =>
    obtain rfl := Except.ok.inj hselected
    exact hsupports
  next => exact absurd hselected (by simp [throw, throwThe, MonadExceptOf.throw])

/-- An operation that is executed has a root type of its own: every accepted schema has a query type, and
operations of the other kinds are only selected where they are supported. -/
theorem ownRootType?_isSome_of_build {builder : SchemaBuilder} {schema : Schema} {document : Document}
    {params : ExecutionParams} (hfinish : builder.finish = .ok schema)
    (hbuild : build schema document params = .ok (.ok ctx)) : ctx.ownRootType?.isSome := by
  have hsupports := supports_of_build hbuild
  obtain ⟨operation, vars, -, -, rfl⟩ := build_eq_ok_iff.mp hbuild
  rw [ownRootType?]
  cases htype : operation.type with
  | query => exact queryType?_isSome_of_finish hfinish
  | mutation => rwa [htype] at hsupports
  | subscription => rwa [htype] at hsupports

/-- No other type stands in for it. -/
theorem rootType?_eq_ownRootType? (h : ctx.ownRootType?.isSome) : ctx.rootType? = ctx.ownRootType? := by
  obtain ⟨root, hroot⟩ := Option.isSome_iff_exists.mp h
  rw [rootType?, hroot, Option.some_or]

theorem exists_rootType_of_build {builder : SchemaBuilder} {schema : Schema} {document : Document}
    {params : ExecutionParams} (hfinish : builder.finish = .ok schema)
    (hbuild : build schema document params = .ok (.ok ctx)) :
    ∃ root, ctx.rootType? = some root := by
  have hown := ownRootType?_isSome_of_build hfinish hbuild
  rw [rootType?_eq_ownRootType? hown]
  exact Option.isSome_iff_exists.mp hown

/-- A subscription has a root type whatever the schema is, since it is not selected without one. -/
theorem exists_rootType_of_subscription {schema : Schema} {document : Document} {params : ExecutionParams}
    (hbuild : build schema document params = .ok (.ok ctx)) (htype : ctx.operation.type = .subscription) :
    ∃ root, ctx.rootType? = some root := by
  have hsupports := supports_of_build hbuild
  rw [htype] at hsupports
  have hown : ctx.ownRootType?.isSome := by
    rw [ownRootType?, htype]
    exact hsupports
  rw [rootType?_eq_ownRootType? hown]
  exact Option.isSome_iff_exists.mp hown

/-- The tree of an operation with a root type is an object. -/
theorem reachedTree_ne_leaf {root : ObjectType} (hroot : ctx.rootType? = some root)
    (value : Value) : ctx.reachedTree ≠ .leaf value := by
  rw [reachedTree, tree, hroot]
  split <;> simp [groupsTree, inTurn]

section Answers

variable {response : Response} {log : List Event} (h : ctx.Answer response log)
include h

/-- The failures of a run are the errors at the positions that fail, each with its own path. -/
theorem Answer.mem_failures_iff {error : GraphQLError} {path : ErrorPath} :
    (error ∈ Event.failures log ∧ error.path = some path) ↔
      ctx.reachedTree.subtree? path = some (.failed error) := by
  have hgrown : Grown [] ctx.reachedTree := reachedTree_grown
  have hmem : error ∈ Event.failures log ↔ error ∈ ctx.reachedTree.failures := h.failed.mem_iff
  rw [hmem, CompletionTree.mem_failures_iff hgrown]
  constructor
  · rintro ⟨⟨found, hfound⟩, hpath⟩
    rw [hgrown.error_path hfound, List.nil_append] at hpath
    rw [← Option.some.inj hpath]
    exact hfound
  · exact fun hfails => ⟨⟨path, hfails⟩, hgrown.error_path hfails⟩

/-- What holds of the position of some failure, read off the log or off the tree. -/
theorem Answer.exists_failure_iff {Q : ErrorPath → Prop} :
    (∃ error ∈ Event.failures log, ∃ path, error.path = some path ∧ Q path) ↔
      ∃ path error, ctx.reachedTree.subtree? path = some (.failed error) ∧ Q path := by
  constructor
  · rintro ⟨error, hmem, path, hpath, hQ⟩
    exact ⟨path, error, h.mem_failures_iff.mp ⟨hmem, hpath⟩, hQ⟩
  · rintro ⟨path, error, hfails, hQ⟩
    obtain ⟨hmem, hpath⟩ := h.mem_failures_iff.mpr hfails
    exact ⟨error, hmem, path, hpath, hQ⟩

/-- Each failure is reported at its position. -/
theorem Answer.exists_position {root : ObjectType} (hroot : ctx.rootType? = some root)
    {error : GraphQLError} (hmem : error ∈ Event.failures log) :
    ∃ path place, error.path = some path ∧ ctx.tree.place? path = some place ∧
      place.tree = .failed error := by
  have hgrown : Grown [] ctx.reachedTree := reachedTree_grown
  obtain ⟨path, hfails⟩ := (CompletionTree.mem_failures_iff hgrown).mp (h.failed.mem_iff.mp hmem)
  have htree := (subtree?_of_reachedTree hfails).1
  -- The tree as a whole is an object, so the failure is inside.
  have hne : path ≠ [] := by
    rintro rfl
    rw [tree, hroot] at htree
    exact absurd htree (by simp [subtree?, groupsTree])
  rw [subtree?_eq_map_place? hne, Option.map_eq_some_iff] at htree
  obtain ⟨place, hplace, hfailed⟩ := htree
  exact ⟨path, place, hgrown.error_path hfails, hplace, hfailed⟩

/-- The data are null exactly if a failure is exposed. -/
theorem Answer.data_null_iff {root : ObjectType} (hroot : ctx.rootType? = some root) :
    response.data = .null ↔
      ∃ error ∈ Event.failures log, ∃ path, error.path = some path ∧ ctx.tree.IsExposed path := by
  have herror : response.data = .null ↔ ∃ error, ctx.reachedTree.completed = .error error := by
    rw [h.data]
    cases hcompleted : ctx.reachedTree.completed with
    | error error => exact ⟨fun _ => ⟨error, rfl⟩, fun _ => rfl⟩
    | ok value =>
      -- Without an error the data are an object.
      refine ⟨fun hvalue => ?_, fun ⟨_, herror⟩ => absurd herror (by simp)⟩
      obtain rfl : value = .null := hvalue
      exact absurd (eq_leaf_null_of_completed h.sound hcompleted) (reachedTree_ne_leaf hroot .null)
  rw [herror, completed_error_iff reachedTree_grown, h.exists_failure_iff]
  refine exists_congr fun path => exists_congr fun error => and_congr_right fun hfails => ?_
  exact (subtree?_of_reachedTree hfails).2

/-- What is null in data that are not null. -/
theorem Answer.exists_value {q : ErrorPath} {place : Place CompletionTree}
    (hplace : ctx.tree.place? q = some place)
    (hopen : ∀ p, p <+: q → p ≠ q → response.data.at? p ≠ some .null) :
    ∃ value, response.data.at? q = some value ∧
      (value = .null ↔ place.nonNull = false ∧ (place.tree = .leaf .null ∨
        ∃ error ∈ Event.failures log, ∃ path, error.path = some path ∧
          ctx.tree.IsLongestNullable q path)) := by
  have hq : [] ≠ q := by
    rintro rfl
    exact absurd hplace (by simp [place?])
  -- The root is one of the places further out, so it is not null and all of its fields are reached.
  have hdata : response.data ≠ .null := fun hnull =>
    hopen [] List.nil_prefix hq (congrArg some hnull)
  have hcompleted : ctx.reachedTree.completed = .ok response.data := by
    have hvalue := h.data
    cases hreached : ctx.reachedTree.completed with
    | error error => rw [hreached] at hvalue; exact absurd hvalue hdata
    | ok value => rw [hreached] at hvalue; rw [hvalue]; rfl
  have htree := reachedTree_eq_tree hcompleted
  rw [h.exists_failure_iff, htree]
  exact exists_value_of_place? tree_grown (htree ▸ h.sound) (htree ▸ hcompleted) hplace hopen

end Answers

end ExecutionContext

/-- **Null propagation is exact.** Each failure is reported at its position. The data are null
exactly if no position on the way to some failure may be null. Where no position further out is
null, a position is null exactly if it may be null and either has the value null without a failure
or is the last position that may be null on the way to some failure. -/
theorem null_propagation {builder : SchemaBuilder} {schema : Schema} {document : Document}
    {params : ExecutionParams} {ctx : ExecutionContext} {response : Response}
    (hfinish : builder.finish = .ok schema)
    (hbuild : ExecutionContext.build schema document params = .ok (.ok ctx))
    (hresponse : (execute schema document params).outcome = .ok response) :
    (∀ error ∈ Event.failures (execute schema document params).log, ∃ path place,
      error.path = some path ∧ ctx.tree.place? path = some place ∧ place.tree = .failed error) ∧
    (response.data = .null ↔ ∃ error ∈ Event.failures (execute schema document params).log,
      ∃ path, error.path = some path ∧ ctx.tree.IsExposed path) ∧
    ∀ q place, ctx.tree.place? q = some place →
      (∀ p, p <+: q → p ≠ q → response.data.at? p ≠ some .null) →
        ∃ value, response.data.at? q = some value ∧
          (value = .null ↔ place.nonNull = false ∧ (place.tree = .leaf .null ∨
            ∃ error ∈ Event.failures (execute schema document params).log,
              ∃ path, error.path = some path ∧ ctx.tree.IsLongestNullable q path)) := by
  obtain ⟨root, hroot⟩ := ExecutionContext.exists_rootType_of_build hfinish hbuild
  rw [execute_of_build hbuild] at hresponse ⊢
  have hanswer := ExecutionContext.answer_of_outcome hresponse
  exact ⟨fun error hmem => hanswer.exists_position hroot hmem, hanswer.data_null_iff hroot,
    fun q place hplace hopen => hanswer.exists_value hplace hopen⟩

/-- In the sample the user is null for want of a name, and the counts for want of two items. -/
theorem null_propagation_sample :
    ∃ response, (execute Sample.schema Sample.document Sample.params).outcome = .ok response ∧
      response.data ≠ .null ∧
      ¬ (∃ error ∈ Event.failures (execute Sample.schema Sample.document Sample.params).log,
        ∃ path, error.path = some path ∧ Sample.ctx.tree.IsExposed path) ∧
      ∃ error ∈ Event.failures (execute Sample.schema Sample.document Sample.params).log,
        ∃ path, error.path = some path ∧
          Sample.ctx.tree.IsLongestNullable [.field "user"] path := by
  obtain ⟨response, hresponse, hdata⟩ := Sample.exists_response
  obtain ⟨_, hnull, hposition⟩ := null_propagation Sample.finish_eq Sample.build_eq hresponse
  have hne : response.data ≠ .null := by rw [hdata]; simp
  refine ⟨response, hresponse, hne, fun hexposed => hne (hnull.mpr hexposed), ?_⟩
  obtain ⟨place, hplace, hfields⟩ : ∃ place, Sample.ctx.tree.place? [.field "user"] = some place ∧
      place.tree.places.length = 3 := ⟨_, rfl, rfl⟩
  have hopen : ∀ p : ErrorPath, p <+: [.field "user"] → p ≠ [.field "user"] →
      response.data.at? p ≠ some .null := by
    intro p hinit hproper
    rcases List.prefix_cons_iff.mp hinit with rfl | ⟨rest, rfl, hrest⟩
    · rw [Value.at?]
      exact fun h => hne (Option.some.inj h)
    · exact absurd (congrArg _ (List.prefix_nil.mp hrest)) hproper
  obtain ⟨value, hvalue, hiff⟩ := hposition _ place hplace hopen
  rw [hdata] at hvalue
  obtain rfl : Value.null = value := Option.some.inj hvalue
  -- The user has fields, so it is not null by itself.
  refine (hiff.mp rfl).2.resolve_left fun hleaf => ?_
  rw [hleaf] at hfields
  exact absurd hfields (by simp [places])

end GraphQL
