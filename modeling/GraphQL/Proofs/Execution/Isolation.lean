import GraphQL.Proofs.Execution.AgreeingTrees
import GraphQL.Proofs.Execution.ErrorConservation
import GraphQL.Proofs.Execution.Scheduling

/-!
# Isolation of siblings

What happens at a field that may be null, and below it, has no effect anywhere else in the response. Two
executions of one operation whose resolvers end with the same everywhere else answer with the same data
but for what is at the field, and with the same errors but for those of the field and the fields below
it: whether the field fails, at once or after any number of visits, whether a panic is caught there, and
which of the values inside of it are null. This is also true of the fields of a mutation that runs in
turn, as the field stops none of those after it.

* `ExecutionContext.AgreesOutside` — agreement everywhere but at a position and below it;
* `CompletionTree.AgreesFrom` — what that means for the tree of a place at a path: nothing below the
  position, equality off the way to it, and agreement outside of it on the way;
* `growWithin_agrees`, `tree_agrees` — agreeing executions have such trees;
* `siblings_isolated` — and their responses are equal outside the position.
-/

open scoped List

namespace GraphQL

open CompletionTree

/-! ### Agreement outside a position -/

/-- Two resolvers end with the same results at all fields that are not at a position or below it. -/
def Resolver.AgreesOutside (q : ErrorPath) (resolver other : Resolver) : Prop :=
  ∀ ctx, ¬ q <+: ctx.info.path.toErrorPath → resolver.ending ctx = other.ending ctx

theorem Resolver.AgreesOutside.refl (q : ErrorPath) (resolver : Resolver) :
    resolver.AgreesOutside q resolver := fun _ _ => rfl

/-- Interceptors that keep the agreement of resolvers outside a position. -/
def Interceptor.AgreesOutside (q : ErrorPath) (interceptor other : Interceptor) : Prop :=
  ∀ resolver resolver', Resolver.AgreesOutside q resolver resolver' →
    Resolver.AgreesOutside q (interceptor resolver) (other resolver')

/-- Around every field there are such interceptors, in the same order. -/
def Middleware.AgreesOutside (q : ErrorPath) (middleware other : Middleware) : Prop :=
  ∀ typeName fieldName, List.Forall₂ (Interceptor.AgreesOutside q)
    (middleware.chainFor typeName fieldName) (other.chainFor typeName fieldName)

/-- Two schemas of the same types and settings whose resolvers agree outside a position. -/
structure Schema.AgreesOutside (q : ErrorPath) (schema other : Schema) : Prop where
  types : schema.types = other.types
  config : schema.config = other.config
  resolveType : ∀ typeName,
    (schema.typeHooks typeName).resolveType = (other.typeHooks typeName).resolveType
  resolver : ∀ typeName fieldName, Option.Rel (Resolver.AgreesOutside q)
    (schema.fieldHooks typeName fieldName).resolver (other.fieldHooks typeName fieldName).resolver

theorem Schema.AgreesOutside.refl (q : ErrorPath) (schema : Schema) :
    schema.AgreesOutside q schema where
  types := rfl
  config := rfl
  resolveType _ := rfl
  resolver typeName fieldName := by
    cases (schema.fieldHooks typeName fieldName).resolver with
    | none => exact .none
    | some resolver => exact .some (.refl q resolver)

/-- Two requests for the same whose resolvers and interceptors agree outside a position. -/
structure ExecutionParams.AgreesOutside (q : ErrorPath) (params other : ExecutionParams) : Prop where
  rootValue : params.rootValue = other.rootValue
  context : params.context = other.context
  vars : params.vars = other.vars
  operationName : params.operationName = other.operationName
  fieldResolver : params.fieldResolver.AgreesOutside q other.fieldResolver
  typeResolver : params.typeResolver = other.typeResolver
  middleware : params.middleware.AgreesOutside q other.middleware

/-- Two contexts for the same request whose resolvers and interceptors agree outside a position. -/
structure ExecutionContext.AgreesOutside (q : ErrorPath) (ctx other : ExecutionContext) : Prop
    extends ctx.SameRequest other where
  resolver : ∀ typeName fieldName, Option.Rel (Resolver.AgreesOutside q)
    (ctx.schema.fieldHooks typeName fieldName).resolver
    (other.schema.fieldHooks typeName fieldName).resolver
  fieldResolver : ctx.fieldResolver.AgreesOutside q other.fieldResolver
  middleware : ctx.middleware.AgreesOutside q other.middleware

/-! ### Trees at a path -/

/-- Two places with everything in common but their trees: these are equal, unless it is the place of a
segment, where they agree outside a position further down. -/
structure Place.AgreesTowards (segment : PathSegment) (rest : ErrorPath)
    (place other : Place CompletionTree) : Prop where
  same : other = { place with tree := other.tree }
  beside : place.segment ≠ segment → place.tree = other.tree
  further : place.segment = segment → AgreesOutside rest place.tree other.tree

/-- Only one of some places with distinct segments can be different. -/
theorem Place.eq_or_exists_of_agreesTowards {segment : PathSegment} {rest : ErrorPath}
    {places others : List (Place CompletionTree)} (hnodup : (places.map Place.segment).Nodup)
    (h : List.Forall₂ (Place.AgreesTowards segment rest) places others) :
    places = others ∨ ∃ before place after tree, places = before ++ place :: after ∧
      others = before ++ { place with tree := tree } :: after ∧ place.segment = segment ∧
        AgreesOutside rest place.tree tree := by
  induction h with
  | nil => exact .inl rfl
  | @cons place other places others hfirst _ ih =>
    rw [List.map_cons, List.nodup_cons] at hnodup
    by_cases hsegment : place.segment = segment
    · -- There is no other place with this segment, so the ones after it are equal.
      have hequal : places = others := by
        rcases ih hnodup.2 with hequal | ⟨before, again, after, -, hplaces, -, hagain, -⟩
        · exact hequal
        · have hmem : again ∈ places := hplaces ▸ List.mem_append_right before List.mem_cons_self
          rw [hsegment, ← hagain] at hnodup
          exact absurd (List.mem_map_of_mem hmem) hnodup.1
      refine .inr ⟨[], place, places, other.tree, rfl, ?_, hsegment, hfirst.further hsegment⟩
      rw [List.nil_append, ← hfirst.same, hequal]
    -- The place is beside the position and therefore equal. A difference can only be further on.
    · have hequal : place = other := by rw [hfirst.same, ← hfirst.beside hsegment]
      rcases ih hnodup.2 with hrest | ⟨before, found, after, tree, rfl, rfl, hfound⟩
      · exact .inl (by rw [hequal, hrest])
      · refine .inr ⟨place :: before, found, after, tree, rfl, ?_, hfound⟩
        rw [hequal, List.cons_append]

namespace CompletionTree

variable {q base : ErrorPath}

/-- Branches that agree outside a position: all places but the one on the way to it are equal. -/
theorem AgreesOutside.branch {segment : PathSegment} {rest : ErrorPath} {shape : Shape}
    {places others : List (Place CompletionTree)} (hnodup : (places.map Place.segment).Nodup)
    (h : List.Forall₂ (Place.AgreesTowards segment rest) places others) :
    AgreesOutside (segment :: rest) (.branch shape places) (.branch shape others) := by
  rcases Place.eq_or_exists_of_agreesTowards hnodup h with
    rfl | ⟨before, place, after, tree, rfl, rfl, rfl, hagrees⟩
  · exact .same _ _
  · exact .inside hagrees

/-- The trees of a place at a path agree outside a position: off the way to the position they are equal,
and on the way they agree outside of what is left of it. Below the position nothing is asked for. -/
structure AgreesFrom (q base : ErrorPath) (tree other : CompletionTree) : Prop where
  apart : ¬ q <+: base → ¬ base <+: q → tree = other
  onWay : ∀ rest, q = base ++ rest → AgreesOutside rest tree other

namespace AgreesFrom

variable {tree other : CompletionTree}

theorem refl (tree : CompletionTree) : AgreesFrom q base tree tree :=
  ⟨fun _ _ => rfl, fun rest _ => .same rest tree⟩

theorem of_below (h : q <+: base) : AgreesFrom q base tree other := by
  refine ⟨fun hbelow _ => absurd h hbelow, fun rest hrest => ?_⟩
  -- The path can only be the position itself.
  obtain rfl : rest = [] := by
    have hlength := h.length_le
    rw [hrest, List.length_append] at hlength
    exact List.length_eq_zero_iff.mp (by omega)
  exact .here tree other

/-- The requirement of a value concerns no trees with places inside. -/
theorem required {nonNull : Bool} {info : ResolveInfo} {path : QueryPath}
    (h : AgreesFrom q base tree other) :
    AgreesFrom q base (required nonNull info path tree) (required nonNull info path other) := by
  refine ⟨fun hbelow habove => congrArg _ (h.apart hbelow habove), fun rest hrest => ?_⟩
  cases h.onWay rest hrest with
  | same => exact .same _ _
  | here => exact .here _ _
  | inside hinside => exact .inside hinside

end AgreesFrom

end CompletionTree

/-- Two places with everything in common but their trees, which agree outside a position. -/
def Place.AgreesFrom (q base : ErrorPath) (place other : Place CompletionTree) : Prop :=
  other = { place with tree := other.tree } ∧
    CompletionTree.AgreesFrom q (base ++ [place.segment]) place.tree other.tree

/-- **Branches of agreeing places agree.** The segments are distinct, so that the position is inside
of one place at most; all other places are equal, and where the position is none of them the
branches are. -/
theorem CompletionTree.AgreesFrom.branch {q base : ErrorPath} {shape : Shape}
    {places others : List (Place CompletionTree)} (hnodup : (places.map Place.segment).Nodup)
    (h : List.Forall₂ (Place.AgreesFrom q base) places others) :
    AgreesFrom q base (.branch shape places) (.branch shape others) := by
  constructor
  · intro hbelow habove
    -- Further down it cannot be on the way to the position either.
    have hequal : ∀ place other, Place.AgreesFrom q base place other → place = other := by
      intro place other hagrees
      have htree : place.tree = other.tree := by
        refine hagrees.2.apart (fun hinit => ?_) fun hinit => ?_
        · rcases List.prefix_concat_iff.mp hinit with rfl | hinit
          · exact habove (List.prefix_append _ _)
          · exact hbelow hinit
        · exact habove ((List.prefix_append _ _).trans hinit)
      rw [hagrees.1, ← htree]
    have hplaces : places = others := by
      rw [← List.forall₂_eq_eq_eq]
      exact h.imp hequal
    rw [hplaces]
  · intro rest hq
    cases rest with
    | nil => exact .here _ _
    | cons segment rest =>
      refine .branch hnodup (h.imp fun place other hagrees => ⟨hagrees.1, fun hne => ?_, ?_⟩)
      · -- Another place is off the way to the position.
        refine hagrees.2.apart (fun hinit => hne ?_) fun hinit => hne ?_
        · rw [hq, List.prefix_append_right_inj, List.cons_prefix_cons] at hinit
          exact hinit.1.symm
        · rw [hq, List.prefix_append_right_inj, List.cons_prefix_cons] at hinit
          exact hinit.1
      · rintro rfl
        exact hagrees.2.onWay rest (by rw [hq, List.append_assoc, List.singleton_append])

/-! ### Trees of executions -/

/-- The trees that are grown for objects agree outside a position. -/
def GrowsAlike (q : ErrorPath) (grow grow' : Grow) : Prop :=
  ∀ object selectionSets value path, AgreesFrom q (QueryPath.toErrorPath path)
    (grow object selectionSets value path) (grow' object selectionSets value path)

namespace ExecutionContext.AgreesOutside

variable {q : ErrorPath} {ctx other : ExecutionContext} (h : ctx.AgreesOutside q other)
include h

/-- Fields that are not at the position or below it are resolved alike, behind all interceptors. -/
theorem resolved_eq {object : ObjectType} {parent : FieldValue} {atRoot : Bool} {node : Field}
    {info : ResolveInfo} {arguments : Arguments} (hbelow : ¬ q <+: info.path.toErrorPath) :
    ctx.resolved object parent atRoot node info arguments =
      other.resolved object parent atRoot node info arguments := by
  have hbase := h.toSameRequest.baseResolver_related object.name node.name atRoot
    (h.resolver object.name node.name) (.refl q .payload) h.fieldResolver
  have hwrapped := Middleware.wrap_relates (R := Resolver.AgreesOutside q)
    (h.middleware object.name node.name) hbase
  exact h.toSameRequest.resolved_congr (hwrapped ⟨parent, arguments, info, ctx.context⟩ hbelow)

section Values

variable {grow grow' : Grow} (hgrow : GrowsAlike q grow grow')
include hgrow

omit h in
theorem ofObject_agrees (object : ObjectType) (info : ResolveInfo) (path : QueryPath)
    (value : FieldValue) :
    AgreesFrom q path.toErrorPath (ofObject grow object info path value)
      (ofObject grow' object info path value) := by
  unfold ofObject
  cases object.isTypeOf with
  | none => exact hgrow ..
  | some isTypeOf =>
    simp only
    split
    · exact hgrow ..
    · exact .refl _
    · exact .refl _

theorem ofNamed_agrees (typeName : String) (info : ResolveInfo) (path : QueryPath)
    (value : FieldValue) :
    AgreesFrom q path.toErrorPath (ofNamed ctx grow typeName info path value)
      (ofNamed other grow' typeName info path value) := by
  -- An abstract type is completed as the object type that both contexts find for the value.
  have habstract : AgreesFrom q path.toErrorPath (ofAbstract ctx grow typeName info path value)
      (ofAbstract other grow' typeName info path value) := by
    unfold ofAbstract
    rw [← h.resolveType, ← h.typeResolver, ← h.types]
    simp only
    split
    · exact .refl _
    · split
      · exact ofObject_agrees hgrow ..
      · exact .refl _
  unfold ofNamed
  rw [← h.types]
  cases ctx.schema.types.type? typeName with
  | none => exact .refl _
  | some type =>
    cases type with
    | object object => exact ofObject_agrees hgrow object info path value
    | interface _ | union _ => exact habstract
    | scalar _ | enum _ | inputObject _ => exact .refl _

/-- The trees of a raw value agree. The induction is on the list wrappers of its type. The raw value
is the same on both sides, so its lists have the same items; whatever differs does so at the
position or below it. -/
theorem ofLayers_agrees (hwell : GrowsWell grow) (typeName : String) (innerRequired : Bool)
    (info : ResolveInfo) (wrappers : List ListWrapping) (path : QueryPath) (value : FieldValue) :
    AgreesFrom q path.toErrorPath
      (ofLayers ctx grow typeName innerRequired info wrappers path value)
      (ofLayers other grow' typeName innerRequired info wrappers path value) := by
  induction wrappers generalizing path value with
  | nil =>
    rw [ofLayers, ofLayers]
    -- No list wrapper is left.
    refine .required ?_
    split
    · exact .refl _
    · exact h.ofNamed_agrees hgrow typeName info path value
  | cons wrapper inner ih =>
    have hgrown : Grown path.toErrorPath
        (ofLayers ctx grow typeName innerRequired info (wrapper :: inner) path value) :=
      ofLayers_grown hwell typeName innerRequired (wrapper :: inner) value
    rw [ofLayers] at hgrown ⊢
    rw [ofLayers]
    split
    · exact .refl _
    · -- The items have distinct segments, so at most one of them is on the way to the position.
      rw [if_neg ‹_›] at hgrown
      cases hitems : Completion.items? value with
      | none => exact .refl _
      | some items =>
        rw [hitems] at hgrown
        refine .branch hgrown.fits.nodup ?_
        rw [List.mapIdx_eq_zipIdx_map, List.mapIdx_eq_zipIdx_map, List.forall₂_map_left_iff,
          List.forall₂_map_right_iff, List.forall₂_same]
        intro item _
        refine ⟨rfl, ?_⟩
        -- The path of an item is the path of the list and the index of the item.
        have hpath : (path.index item.2).toErrorPath = path.toErrorPath ++ [.index item.2] :=
          QueryPath.segments_child ..
        rw [← hpath]
        exact ih _ _

/-- The places of a field with a definition. -/
theorem definedPlace_agrees (hwell : GrowsWell grow) (object : ObjectType) (parent : FieldValue)
    (atRoot : Bool) (key : String) (definition : FieldDefinition) (node : Field)
    {info : ResolveInfo} {base : ErrorPath} (hbase : info.path.toErrorPath = base ++ [.field key]) :
    Place.AgreesFrom q base (ctx.definedPlace grow object parent atRoot key definition node info)
      (other.definedPlace grow' object parent atRoot key definition node info) := by
  rw [definedPlace, definedPlace, ← h.types, ← h.vars]
  cases Coercion.coerceArguments ctx.schema.types definition node ctx.vars with
  -- Both calls of the resolver are left out: the arguments are not accepted on either side.
  | error failure => cases failure <;> exact ⟨rfl, .refl _⟩
  | ok arguments =>
    refine ⟨rfl, ?_⟩
    simp only
    rw [← hbase]
    -- At the position and below it the contexts owe each other nothing.
    by_cases hbelow : q <+: info.path.toErrorPath
    · exact .of_below hbelow
    · -- Outside the position the resolvers end with the same.
      rw [← h.resolved_eq hbelow]
      cases ctx.resolved object parent atRoot node info arguments with
      | error why => exact .refl _
      | ok result =>
        cases result with
        | error error => exact .refl _
        | ok value => exact h.ofLayers_agrees hgrow hwell ..

/-- The places of the selections under one response key. -/
theorem fieldPlace_agrees (hwell : GrowsWell grow) (object : ObjectType) (parent : FieldValue)
    (path : QueryPath) (key : String) (nodes : List Field) :
    Place.AgreesFrom q path.toErrorPath (ctx.fieldPlace grow object parent path key nodes)
      (other.fieldPlace grow' object parent path key nodes) := by
  have hsame : ∀ place, Place.AgreesFrom q path.toErrorPath place place := fun place =>
    ⟨rfl, .refl _⟩
  cases nodes with
  | nil => exact hsame _
  | cons node others =>
    rw [fieldPlace, fieldPlace]
    by_cases htypename : (node.name == "__typename") = true
    · simp only [if_pos htypename]
      exact hsame _
    · simp only [if_neg htypename]
      cases object.field? node.name with
      | none => exact hsame _
      | some definition =>
        -- The path of the field is the path of the object and the key.
        have hpath : (path.field key object.name).toErrorPath = path.toErrorPath ++ [.field key] :=
          QueryPath.segments_child ..
        simp only [← h.resolveInfo_eq]
        exact h.definedPlace_agrees hgrow hwell object parent path.isEmpty key definition node hpath

/-- The trees of an object: the same fields are collected, under distinct keys. -/
theorem groupsTree_agrees (hwell : GrowsWell grow) (object : ObjectType) (parent : FieldValue)
    (path : QueryPath) (selectionSets : List (List Selection)) :
    AgreesFrom q path.toErrorPath
      (ctx.groupsTree grow object parent path (ctx.collectFields object selectionSets))
      (other.groupsTree grow' object parent path (other.collectFields object selectionSets)) := by
  have hgrown : Grown path.toErrorPath
      (ctx.groupsTree grow object parent path (ctx.collectFields object selectionSets)) :=
    groupsTree_grown hwell object parent path selectionSets
  rw [← h.collectFields_eq]
  refine .branch hgrown.fits.nodup ?_
  rw [List.forall₂_map_left_iff, List.forall₂_map_right_iff, List.forall₂_same]
  exact fun group _ => h.fieldPlace_agrees hgrow hwell object parent path group.1 group.2

end Values

/-- **Nested selections** have agreeing trees, at every depth. -/
theorem growWithin_agrees (depth : Nat) :
    GrowsAlike q (ctx.growWithin depth) (other.growWithin depth) := by
  induction depth with
  | zero => exact fun _ _ _ _ => .refl _
  | succ depth ih =>
    exact fun object selectionSets value path =>
      h.groupsTree_agrees ih (growWithin_grown depth) object value path selectionSets

/-- **The trees of the operation agree outside the position.** -/
theorem tree_agrees : CompletionTree.AgreesOutside q ctx.tree other.tree := by
  rw [tree, tree, ← h.rootType?_eq]
  cases ctx.rootType? with
  | none => exact .same _ _
  | some root =>
    have hroot := h.groupsTree_agrees (h.growWithin_agrees ctx.depthLimit)
      (growWithin_grown ctx.depthLimit) root ctx.rootValue .empty [ctx.operation.selections]
    simp only [← h.depthLimit_eq, ← h.rootValue, ← h.operation]
    exact hroot.onWay q rfl

/-- So do the trees of what is reached. -/
theorem reachedTree_agrees (hq : ctx.reachedTree.IsNullable q) :
    CompletionTree.AgreesOutside q ctx.reachedTree other.reachedTree := by
  have hwhole := ctx.isNullable_tree hq
  rw [reachedTree, reachedTree, ← h.isSerial_eq]
  split
  · exact h.tree_agrees.inTurn tree_grown tree_grown hwhole
  · exact h.tree_agrees

/-! ### Responses -/

omit h in
/-- How an error is shown does not change where it belongs. -/
theorem isOutside_shownError (error : GraphQLError) :
    (ctx.shownError error).isOutside q = error.isOutside q := by
  rw [GraphQLError.isOutside, path_shownError, GraphQLError.isOutside]

/-- The position may be null in both executions. -/
theorem isNullable (hq : ctx.reachedTree.IsNullable q) : other.reachedTree.IsNullable q :=
  (h.reachedTree_agrees hq).isNullable reachedTree_grown reachedTree_grown hq

/-- **The other execution has a response** exactly if nothing breaks it down at the position or below. -/
theorem exists_response_iff (hq : ctx.reachedTree.IsNullable q) {response : Response}
    (hresponse : ctx.respond.outcome = .ok response) :
    (∃ response', other.respond.outcome = .ok response') ↔
      ∃ inner, other.reachedTree.subtree? q = some inner ∧ inner.IsSound := by
  rw [ExecutionContext.exists_response_iff]
  exact (h.reachedTree_agrees hq).isSound_iff reachedTree_grown reachedTree_grown
    (answer_of_outcome hresponse).sound (exists_subtree?_of_isNullable hq)

/-- **The responses are equal outside the position.** Both are answers of their contexts, so data
and errors are read from the reached trees, which agree. Which errors are outside is told from their
paths, and these are shown as they are. -/
theorem responses_agree (hq : ctx.reachedTree.IsNullable q) {response response' : Response}
    (hresponse : ctx.respond.outcome = .ok response)
    (hresponse' : other.respond.outcome = .ok response') :
    response.data.blank q = response'.data.blank q ∧
      (response.errors.filter (GraphQLError.isOutside q)).Perm
        (response'.errors.filter (GraphQLError.isOutside q)) := by
  have hagrees := h.reachedTree_agrees hq
  -- Each response is the answer of its context, whose reached tree agrees with that of the other
  -- one.
  have hanswer := answer_of_outcome hresponse
  have hanswer' := answer_of_outcome hresponse'
  constructor
  · rw [hanswer.data, hanswer'.data, Completed.blank_valueOrNull, Completed.blank_valueOrNull,
      hagrees.completed_eq reachedTree_grown reachedTree_grown hq]
  -- Whether an error is outside is told from its path, which is not changed when it is shown.
  · have hshown : ∀ errors : List GraphQLError,
        (errors.map ctx.shownError).filter (GraphQLError.isOutside q) =
          (errors.filter (GraphQLError.isOutside q)).map ctx.shownError := by
      intro errors
      rw [List.filter_map]
      refine congrArg _ (List.filter_congr fun error _ => ?_)
      exact isOutside_shownError error
    have hfailures : ctx.reachedTree.failures.filter (GraphQLError.isOutside q) =
        other.reachedTree.failures.filter (GraphQLError.isOutside q) :=
      hagrees.failures_eq reachedTree_grown reachedTree_grown
    calc response.errors.filter (GraphQLError.isOutside q)
        ~ (ctx.reachedTree.failures.map ctx.shownError).filter (GraphQLError.isOutside q) :=
          hanswer.errors_perm_reached.filter _
      _ = (other.reachedTree.failures.map other.shownError).filter (GraphQLError.isOutside q) := by
          rw [hshown, hfailures, ← hshown, h.shownError_eq]
      _ ~ response'.errors.filter (GraphQLError.isOutside q) :=
          (hanswer'.errors_perm_reached.filter _).symm

end ExecutionContext.AgreesOutside

/-- Requests that agree outside a position are executed in contexts that do. -/
theorem ExecutionContext.build_agreesOutside {q : ErrorPath} {schema schema' : Schema}
    {document : Document} {params params' : ExecutionParams} {ctx : ExecutionContext}
    (hschema : schema.AgreesOutside q schema') (hparams : params.AgreesOutside q params')
    (hbuild : build schema document params = .ok (.ok ctx)) :
    ∃ ctx', build schema' document params' = .ok (.ok ctx') ∧ ctx.AgreesOutside q ctx' := by
  obtain ⟨operation, vars, hselect, hvars, rfl⟩ := build_eq_ok_iff.mp hbuild
  rw [select, hschema.types, hparams.operationName] at hselect
  -- The document and the coerced variables are the same, so that the other request is not refused
  -- either.
  rw [hschema.types, hschema.config, hparams.vars] at hvars
  refine ⟨_, build_eq_ok_iff.mpr ⟨operation, vars, hselect, hvars, rfl⟩, ?_⟩
  exact {
    types := hschema.types
    config := hschema.config
    resolveType := hschema.resolveType
    fragments := rfl
    operation := rfl
    rootValue := hparams.rootValue
    context := hparams.context
    vars := rfl
    typeResolver := hparams.typeResolver
    isEvent := rfl
    resolver := hschema.resolver
    fieldResolver := hparams.fieldResolver
    middleware := hparams.middleware }

/-- **Siblings are isolated.** Let a position be reached in an execution that may be null there, and let
the resolvers of another execution of the same request end with the same at all fields but those at the
position and below. Then the position is reached in the other execution as well, which has a response
unless something at the position or below it breaks it down, and the two responses are the same outside
of the position: the data are equal with the position blanked, so everywhere that is neither on the way
to the position nor below it, and the errors that do not belong to the position or to one below it are
the same in some order. -/
theorem siblings_isolated {schema schema' : Schema} {document : Document}
    {params params' : ExecutionParams} {ctx : ExecutionContext} {response : Response} {q : ErrorPath}
    (hschema : schema.AgreesOutside q schema') (hparams : params.AgreesOutside q params')
    (hbuild : ExecutionContext.build schema document params = .ok (.ok ctx))
    (hq : ctx.reachedTree.IsNullable q)
    (hresponse : (execute schema document params).outcome = .ok response) :
    ∃ ctx', ExecutionContext.build schema' document params' = .ok (.ok ctx') ∧
      ctx'.reachedTree.IsNullable q ∧
      ((∃ response', (execute schema' document params').outcome = .ok response') ↔
        ∃ inner, ctx'.reachedTree.subtree? q = some inner ∧ inner.IsSound) ∧
      ∀ response', (execute schema' document params').outcome = .ok response' →
        response.data.blank q = response'.data.blank q ∧
          (∀ p, ¬ q <+: p → ¬ p <+: q → response.data.at? p = response'.data.at? p) ∧
          (response.errors.filter (GraphQLError.isOutside q)).Perm
            (response'.errors.filter (GraphQLError.isOutside q)) := by
  obtain ⟨ctx', hbuild', hagrees⟩ := ExecutionContext.build_agreesOutside hschema hparams hbuild
  rw [execute_of_build hbuild] at hresponse
  rw [execute_of_build hbuild']
  refine ⟨ctx', hbuild', hagrees.isNullable hq, hagrees.exists_response_iff hq hresponse, ?_⟩
  intro response' hresponse'
  obtain ⟨hdata, herrors⟩ := hagrees.responses_agree hq hresponse hresponse'
  exact ⟨hdata, fun p => Value.at?_eq_of_blank_eq hdata, herrors⟩

/-- The sample with a resolver of the user that panics at its third visit. -/
def Sample.panickingParams : ExecutionParams :=
  { Sample.params with
    fieldResolver := fun ctx =>
      if ctx.info.path.toErrorPath = [.field "user"] then
        .returned [] (.pending ((Coroutine.delay 2).bind fun _ => .abort [] (.panicked "no user")))
      else Resolver.standard ctx }

/-- In the sample the counts fail as they do beside a user whose name is missing. -/
theorem siblings_isolated_sample :
    ∃ response response',
      (execute Sample.schema Sample.document Sample.params).outcome = .ok response ∧
      (execute Sample.schema Sample.document Sample.panickingParams).outcome = .ok response' ∧
      (execute Sample.schema Sample.document Sample.panickingParams).polls = 2 ∧
      response.data.at? [.field "counts"] = response'.data.at? [.field "counts"] ∧
      (response.errors.filter (GraphQLError.isOutside [.field "user"])).length = 2 ∧
      (response.errors.filter (GraphQLError.isOutside [.field "user"])).Perm
        (response'.errors.filter (GraphQLError.isOutside [.field "user"])) := by
  -- The resolvers differ at the user only, where one of them panics.
  have hparams : Sample.params.AgreesOutside [.field "user"] Sample.panickingParams :=
    { rootValue := rfl
      context := rfl
      vars := rfl
      operationName := rfl
      fieldResolver := fun ctx houtside => by
        have hpath : ctx.info.path.toErrorPath ≠ [.field "user"] := fun heq =>
          houtside (heq ▸ List.prefix_rfl)
        simp only [Resolver.ending, Sample.panickingParams, if_neg hpath]
        rfl
      typeResolver := rfl
      middleware := fun _ _ => .nil }
  have hq : Sample.ctx.reachedTree.IsNullable [.field "user"] := ⟨_, rfl, rfl⟩
  -- Each of the two requests is executed, which is a matter of computation.
  obtain ⟨response, hresponse, hcount⟩ : ∃ response,
      (execute Sample.schema Sample.document Sample.params).outcome = .ok response ∧
        (response.errors.filter (GraphQLError.isOutside [.field "user"])).length = 2 :=
    ⟨_, rfl, rfl⟩
  obtain ⟨response', hresponse'⟩ : ∃ response',
      (execute Sample.schema Sample.document Sample.panickingParams).outcome = .ok response' :=
    ⟨_, rfl⟩
  -- What is outside the user is then the same by the theorem.
  obtain ⟨-, -, -, -, hequal⟩ := siblings_isolated (.refl [.field "user"] Sample.schema) hparams
    Sample.build_eq hq hresponse
  obtain ⟨-, hdata, herrors⟩ := hequal response' hresponse'
  refine ⟨response, response', hresponse, hresponse', rfl, ?_, hcount, herrors⟩
  exact hdata [.field "counts"] (by decide) (by decide)

end GraphQL
