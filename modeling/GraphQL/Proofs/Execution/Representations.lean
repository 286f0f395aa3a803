import GraphQL.Proofs.Execution.RelatedCompletions
import GraphQL.Proofs.Value.Representations
import GraphQL.Scalar.Builtin

/-!
# Completions do not depend on representations

A raw value without data sources amounts to a constant value. Completing the one and completing the other
differs in the texts of messages and in what the resolvers of sub-fields are told about their parent, and in
nothing else: whether a value is null, the items of a list, the leaves and the fields of an object are read
alike through markers and both kinds of lists. Types of interfaces and unions are left out, as these are
resolved by looking at markers.

* `FieldValue.ReadAlike` — raw values with the same fields that amount to the same constant value;
* `RunsUpToForms` — executions in lockstep, up to messages and the forms of parents;
* `ExecutionContext.executeField_upToForms` — a sub-field that is read from its parent;
* `Completion.completeValue_upToForms` — completions in lockstep;
* `completion_ignores_representation` — equal data, and errors that are equal but for their messages.
-/

namespace GraphQL

/-- Two errors are equal, apart from their messages. -/
structure GraphQLError.UpToMessage (error error' : GraphQLError) : Prop where
  code : error.code = error'.code
  locations : error.locations = error'.locations
  path : error.path = error'.path
  extensions : error.extensions = error'.extensions
  cause : error.cause = error'.cause

theorem GraphQLError.UpToMessage.refl (error : GraphQLError) : error.UpToMessage error :=
  ⟨rfl, rfl, rfl, rfl, rfl⟩

/-! ### Raw values that are read alike -/

/-- Two raw values have the same fields and amount to the same constant value. -/
structure FieldValue.ReadAlike (value value' : FieldValue) : Prop where
  field : ∀ name, value.field? name = value'.field? name
  constant : value.toValue? = value'.toValue?

/-- A raw value and the constant value that it amounts to. -/
theorem FieldValue.readAlike_plain {value : FieldValue} {constant : Value}
    (h : value.toValue? = some constant) : value.ReadAlike (.plain constant) :=
  ⟨field?_of_toValue? h, h⟩

/-- A predicate reads a raw value only through its fields and the constant value that it amounts to. -/
def TypePredicate.ReadsFields (isTypeOf : TypePredicate) : Prop :=
  ∀ value value' : FieldValue, value.ReadAlike value' → isTypeOf value = isTypeOf value'

/-- A field is read from the parent: neither it nor the request has a resolver of its own for it, and there
are no interceptors. -/
structure ExecutionContext.ReadsParent (ctx : ExecutionContext) (object : ObjectType) (name : String) :
    Prop where
  resolver : (ctx.schema.fieldHooks object.name name).resolver = none
  fieldResolver : ctx.fieldResolver = .standard
  interceptors : ctx.middleware.chainFor object.name name = []

/-- The value of a field is read only through its fields and the constant value that it amounts to, where it
is an object of the given type: by the predicate of the type, and by the selections of the field. -/
structure ExecutionContext.ReadsObject (ctx : ExecutionContext) (info : ResolveInfo) (object : ObjectType) :
    Prop where
  predicate : ∀ isTypeOf, object.isTypeOf = some isTypeOf → isTypeOf.ReadsFields
  selections : ∀ group ∈ ctx.collectFields object (info.fieldNodes.map FieldNode.selections),
    ∀ node ∈ group.2, ctx.ReadsParent object node.name

/-! ### Executions up to messages and forms -/

/-- Two events are equal, apart from the messages of errors and the forms of parents. -/
inductive Event.UpToForms : Event → Event → Prop
  | related {event event' : Event} (h : Related GraphQLError.UpToMessage event event') :
      UpToForms event event'
  | called (path : QueryPath) {parent parent' : FieldValue} (h : parent.ReadAlike parent')
      (arguments : Arguments) : UpToForms (.called path parent arguments) (.called path parent' arguments)

/-- Two parts of executions in lockstep, up to messages and the forms of parents. -/
abbrev RunsUpToForms {α : Type} (run run' : Run (Except GraphQLError α)) : Prop :=
  Coroutine.Lockstep Event.UpToForms (ExceptRel GraphQLError.UpToMessage Eq) run run'

theorem RunsRelated.upToForms {α : Type} {run run' : Run (Except GraphQLError α)}
    (h : RunsRelated GraphQLError.UpToMessage run run') : RunsUpToForms run run' :=
  Coroutine.Lockstep.imp (fun _ _ => .related) h

theorem RunsUpToForms.refl {α : Type} (run : Run (Except GraphQLError α)) : RunsUpToForms run run :=
  Coroutine.Lockstep.refl (fun event => .related (.same event)) (ExceptRel.refl .refl fun _ => rfl) run

/-- A place fails in both, with a message of its own in each. -/
theorem ResolveInfo.fail_upToForms (info : ResolveInfo) (path : QueryPath) (message message' : String)
    (code : ErrorCode) : RunsUpToForms (info.fail path message code) (info.fail path message' code) :=
  (Completed.fail_related ⟨rfl, rfl, rfl, rfl, rfl⟩).upToForms

/-- The errors that are recorded. -/
theorem Event.errors_upToForms {log log' : List Event} (h : List.Forall₂ UpToForms log log') :
    List.Forall₂ GraphQLError.UpToMessage (log.filterMap error?) (log'.filterMap error?) := by
  induction h with
  | nil => exact .nil
  | @cons event event' log log' hfirst _ ih =>
    cases hfirst with
    | related h =>
      have herrors := errors_related (.cons h .nil) .refl
      rw [← List.singleton_append, ← List.singleton_append (l := log'), List.filterMap_append,
        List.filterMap_append]
      exact List.rel_append herrors ih
    -- A call records no error.
    | called path h arguments => exact ih

/-! ### Sub-fields -/

namespace ExecutionContext

variable {ctx : ExecutionContext} {object : ObjectType} {parent parent' : FieldValue}

/-- A field that is read from its parent, at a place other than the root. -/
theorem ReadsParent.resolver_eq {name : String} (h : ctx.ReadsParent object name) :
    ctx.middleware.wrap object.name name (ctx.baseResolver object.name name false) = .standard := by
  rw [Middleware.wrap, h.interceptors, baseResolver, h.resolver, Bool.and_false]
  exact h.fieldResolver

/-- The standard resolver has its result at once. -/
theorem invoke_standard (resolverContext : ResolverContext) :
    ctx.invoke .standard resolverContext =
      .finish [.called resolverContext.info.path resolverContext.parent resolverContext.arguments,
          .settled resolverContext.info.path]
        (.ok ((resolverContext.parent.field? resolverContext.info.fieldName).getD .null)) := by
  rw [invoke]
  split <;> rfl

variable (h : parent.ReadAlike parent') (select : Select)
include h

/-- A field of two parents that are read alike. Both have the same raw value for it, so only the call of the
resolver differs. -/
theorem executeDefined_upToForms {node : Field} (hreads : ctx.ReadsParent object node.name)
    (definition : FieldDefinition) (info : ResolveInfo) :
    RunsUpToForms (ctx.executeDefined select object parent false definition node info)
      (ctx.executeDefined select object parent' false definition node info) := by
  rw [executeDefined, executeDefined]
  cases Coercion.coerceArguments ctx.schema.types definition node ctx.vars with
  | error failure => cases failure <;> exact .refl _
  | ok arguments =>
    dsimp only
    rw [hreads.resolver_eq, invoke_standard, invoke_standard]
    dsimp only
    -- The raw value of the field is one and the same, and so is what follows.
    rw [h.field]
    exact (RunsUpToForms.refl _).prepend (.cons (.called _ h arguments) (.cons (.related (.same _)) .nil))

/-- The selections under one response key. -/
theorem executeField_upToForms {path : QueryPath} (hpath : path.isEmpty = false) (key : String)
    {nodes : List Field} (hreads : ∀ node ∈ nodes, ctx.ReadsParent object node.name) :
    RunsUpToForms (ctx.executeField select object parent path key nodes)
      (ctx.executeField select object parent' path key nodes) := by
  cases nodes with
  | nil => exact .refl _
  | cons node others =>
    rw [executeField, executeField, hpath]
    split
    · exact .refl _
    · cases object.field? node.name with
      | none => exact .refl _
      | some definition =>
        exact executeDefined_upToForms h select (hreads node List.mem_cons_self) definition _

/-- The fields of an object, side by side. -/
theorem executeGroups_upToForms {path : QueryPath} (hpath : path.isEmpty = false) {groups : FieldGroups}
    (hreads : ∀ group ∈ groups, ∀ node ∈ group.2, ctx.ReadsParent object node.name) :
    RunsUpToForms (ctx.executeGroups select false object parent path groups)
      (ctx.executeGroups select false object parent' path groups) := by
  have hfields : List.Forall₂ RunsUpToForms
      (groups.map fun group => (ctx.executeField select object parent path group.1 group.2).map
        (Except.map fun value => (group.1, value)))
      (groups.map fun group => (ctx.executeField select object parent' path group.1 group.2).map
        (Except.map fun value => (group.1, value))) := by
    rw [List.forall₂_map_left_iff, List.forall₂_map_right_iff, List.forall₂_same]
    intro group hgroup
    exact (executeField_upToForms h select hpath group.1 (hreads group hgroup)).map fun _ _ h =>
      h.map fun _ _ => congrArg _
  -- All fields are run, and their results are gathered in the same order.
  have htogether : RunsUpToForms (executeTogether (ctx.executeField select object parent path) groups)
      (executeTogether (ctx.executeField select object parent' path) groups) :=
    (Coroutine.Lockstep.joinAll hfields).bind fun _ _ h => (gather_related h).upToForms
  exact htogether.map fun _ _ h => h.map fun _ _ => congrArg _

end ExecutionContext

/-! ### Completions -/

/-- Lists that correspond item by item, with the index of each item. -/
theorem forall₂_zipIdx {α β : Type} {R : α → β → Prop} {xs : List α} {ys : List β}
    (h : List.Forall₂ R xs ys) (start : Nat) :
    List.Forall₂ (fun entry entry' => R entry.1 entry'.1 ∧ entry.2 = entry'.2) (xs.zipIdx start)
      (ys.zipIdx start) := by
  induction h generalizing start with
  | nil => exact .nil
  | cons hfirst _ ih => exact .cons ⟨hfirst, rfl⟩ (ih (start + 1))

namespace Completion

variable {ctx : ExecutionContext} {info : ResolveInfo} {path : QueryPath} {value : FieldValue}
  {constant : Value}

/-- A result at a place that may have to be required. -/
theorem requireValue_upToForms (nonNull : Bool) (info : ResolveInfo) (path : QueryPath)
    {result result' : Completed} (hresult : ExceptRel GraphQLError.UpToMessage Eq result result') :
    RunsUpToForms (requireValue nonNull info path result) (requireValue nonNull info path result') := by
  cases hresult with
  | error h => exact .pure (.error h)
  | @ok value _ h =>
    obtain rfl := h
    exact .refl _

theorem completeScalar_upToForms (scalar : ScalarType) (h : value.toValue? = some constant) :
    RunsUpToForms (completeScalar scalar info path value)
      (completeScalar scalar info path (.plain constant)) := by
  rw [completeScalar, completeScalar, h, FieldValue.toValue?_plain]
  exact .refl _

theorem completeEnum_upToForms (type : EnumType) (h : value.toValue? = some constant) :
    RunsUpToForms (completeEnum type info path value) (completeEnum type info path (.plain constant)) := by
  rw [completeEnum, completeEnum, h, FieldValue.toValue?_plain, Option.bind_some]
  cases type.serialize? constant with
  | some name => exact .refl _
  | none => exact info.fail_upToForms path _ _ _

/-- An object. Its predicate answers both alike, and its fields are read alike. A refusal names the
value in the form that it has, which is why messages may differ, and nothing else. -/
theorem completeObject_upToForms (depth : Nat) {object : ObjectType} (hreads : ctx.ReadsObject info object)
    (hpath : path.isEmpty = false) (h : value.toValue? = some constant) :
    RunsUpToForms (completeObject (ctx.selectWithin depth) object info path value)
      (completeObject (ctx.selectWithin depth) object info path (.plain constant)) := by
  have halike := FieldValue.readAlike_plain h
  -- The fields of the object are executed at the same depth, if there is any depth left.
  have hselected : RunsUpToForms
      (ctx.selectWithin depth object (info.fieldNodes.map FieldNode.selections) value path)
      (ctx.selectWithin depth object (info.fieldNodes.map FieldNode.selections) (.plain constant) path) := by
    cases depth with
    | zero => exact .refl _
    | succ depth => exact ExecutionContext.executeGroups_upToForms halike _ hpath hreads.selections
  -- The predicate answers first; a refusal names the value in its own form.
  have hanswered (accepted : Bool) (message message' : String) : RunsUpToForms
      (if accepted then ctx.selectWithin depth object (info.fieldNodes.map FieldNode.selections) value path
        else info.fail path message .valueCompletionError)
      (if accepted then
          ctx.selectWithin depth object (info.fieldNodes.map FieldNode.selections) (.plain constant) path
        else info.fail path message' .valueCompletionError) := by
    split
    · exact hselected
    · exact info.fail_upToForms path _ _ _
  have hsame (event : Event) : Event.UpToForms event event := .related (.same event)
  rw [completeObject, completeObject]
  cases hpredicate : object.isTypeOf with
  | none => exact .bind_same hsame _ fun accepted => hanswered accepted _ _
  | some isTypeOf =>
    dsimp only
    rw [hreads.predicate isTypeOf hpredicate value _ halike]
    exact .bind_same hsame _ fun accepted => hanswered accepted _ _

/-- A value that is not null, against a type without wrappers other than an interface or union type. -/
theorem completeNamed_upToForms (depth : Nat) {typeName : String}
    (habstract : ∀ definition, ctx.schema.types.type? typeName = some definition →
      definition.isAbstract = false)
    (hreads : ∀ object, ctx.schema.types.type? typeName = some (.object object) →
      ctx.ReadsObject info object)
    (hpath : path.isEmpty = false) (h : value.toValue? = some constant) :
    RunsUpToForms (completeNamed ctx (ctx.selectWithin depth) typeName info path value)
      (completeNamed ctx (ctx.selectWithin depth) typeName info path (.plain constant)) := by
  rw [completeNamed, completeNamed]
  -- Only leaf and object types are left, as abstract types may look at the form of a value.
  cases htype : ctx.schema.types.type? typeName with
  | none => exact .refl _
  | some definition =>
    cases definition with
    | scalar scalar => exact completeScalar_upToForms scalar h
    | enum type => exact completeEnum_upToForms type h
    | object object => exact completeObject_upToForms depth (hreads object htype) hpath h
    | interface type => exact absurd (habstract _ htype) Bool.noConfusion
    | union type => exact absurd (habstract _ htype) Bool.noConfusion
    | inputObject type => exact .refl _

/-- Items that are completed alike are gathered alike. -/
theorem items_upToForms {items items' : List FieldValue} {complete : Nat → FieldValue → Run Completed}
    (h : List.Forall₂ (fun item item' => ∀ index,
      RunsUpToForms (complete index item) (complete index item')) items items') (nonNull : Bool) :
    RunsUpToForms ((Coroutine.joinAll (items.mapIdx complete)).bind (gatherItems nonNull))
      ((Coroutine.joinAll (items'.mapIdx complete)).bind (gatherItems nonNull)) := by
  refine (Coroutine.Lockstep.joinAll ?_).bind fun _ _ h => (gatherItems_related nonNull h).upToForms
  rw [List.mapIdx_eq_zipIdx_map, List.mapIdx_eq_zipIdx_map]
  refine List.rel_map ?_ (forall₂_zipIdx h 0)
  rintro ⟨item, index⟩ ⟨item', _⟩ ⟨hitem, rfl⟩
  exact hitem index

/-- A value against a type. The induction is on the list wrappers of the type: the items of a list are
the items of the constant in forms of their own. -/
theorem completeLayers_upToForms (depth : Nat) {typeName : String}
    (habstract : ∀ definition, ctx.schema.types.type? typeName = some definition →
      definition.isAbstract = false)
    (hreads : ∀ object, ctx.schema.types.type? typeName = some (.object object) →
      ctx.ReadsObject info object)
    (innerRequired : Bool) (wrappers : List ListWrapping) (hpath : path.isEmpty = false)
    (h : value.toValue? = some constant) :
    RunsUpToForms
      (completeLayers ctx (ctx.selectWithin depth) typeName innerRequired info wrappers path value)
      (completeLayers ctx (ctx.selectWithin depth) typeName innerRequired info wrappers path
        (.plain constant)) := by
  induction wrappers generalizing path value constant with
  | nil =>
    -- Whether a value is null does not depend on its form.
    rw [completeLayers, completeLayers, FieldValue.isNull_of_toValue? h,
      FieldValue.isNull_of_toValue? (FieldValue.toValue?_plain constant)]
    split
    · exact .refl _
    · exact (completeNamed_upToForms depth habstract hreads hpath h).bind fun _ _ hresult =>
        requireValue_upToForms innerRequired info path hresult
  | cons wrapper inner ih =>
    rw [completeLayers, completeLayers, FieldValue.isNull_of_toValue? h,
      FieldValue.isNull_of_toValue? (FieldValue.toValue?_plain constant)]
    split
    · exact .refl _
    · rcases items?_of_toValue? h with ⟨items, values, rfl, hitems, hforms⟩ | ⟨hnolist, hnone⟩
      · -- The items of the constant are plain, and each item of the value amounts to one of them.
        have hplain : items? (.plain (.list values)) = some (values.map .plain) := rfl
        rw [hitems, hplain]
        refine items_upToForms ?_ _
        exact List.forall₂_map_right_iff.mpr (hforms.imp fun _ _ hitem _ => ih rfl hitem)
      · -- Neither is a list, which is said without a word about the value.
        have hplain : items? (.plain constant) = none := by
          cases constant with
          | list values => exact absurd rfl (hnolist values)
          | _ => rfl
        rw [hnone, hplain]
        exact .refl _

/-- **Completing a raw value runs in lockstep with completing the constant value that it amounts to.** -/
theorem completeValue_upToForms (depth : Nat)
    (habstract : ctx.schema.types.isAbstractType info.returnType = false)
    (hreads : ∀ object, ctx.schema.types.namedType? info.returnType = some (.object object) →
      ctx.ReadsObject info object)
    (hpath : info.path.isEmpty = false) (h : value.toValue? = some constant) :
    RunsUpToForms (completeValue ctx (ctx.selectWithin depth) info value)
      (completeValue ctx (ctx.selectWithin depth) info (.plain constant)) := by
  refine completeLayers_upToForms depth (fun definition htype => ?_) hreads _ _ hpath h
  rw [TypeSystem.isAbstractType, TypeSystem.namedTypeIs, TypeSystem.namedType?, htype] at habstract
  exact habstract

end Completion

/-- Two completions take the same number of visits, end with equal data or with errors that are equal but for
their messages, and so are the errors that they record. -/
structure SameUpToMessages (run run' : Run Completed) : Prop where
  polls : run.polls = run'.polls
  outcome : Coroutine.SameOutcome (ExceptRel GraphQLError.UpToMessage Eq) run.outcome run'.outcome
  recorded : List.Forall₂ GraphQLError.UpToMessage (run.log.filterMap Event.error?)
    (run'.log.filterMap Event.error?)

/-- **Completion depends on a value, not on its representation.** A raw value without data sources may mark
its parts with types and be made of either kind of lists: against any type other than an interface or union
type it is completed as the constant value that it amounts to. The selections on it are to read their fields
from it, and the predicate of its type is to read it in the same way. The place of a field is never the
root. -/
theorem completion_ignores_representation (ctx : ExecutionContext) (depth : Nat) (info : ResolveInfo)
    {value : FieldValue} {constant : Value} (h : value.toValue? = some constant)
    (habstract : ctx.schema.types.isAbstractType info.returnType = false)
    (hreads : ∀ object, ctx.schema.types.namedType? info.returnType = some (.object object) →
      ctx.ReadsObject info object)
    (hpath : info.path.isEmpty = false) :
    SameUpToMessages (Completion.completeValue ctx (ctx.selectWithin depth) info value)
      (Completion.completeValue ctx (ctx.selectWithin depth) info (.plain constant)) := by
  have hlockstep := Completion.completeValue_upToForms depth habstract hreads hpath h
  exact ⟨hlockstep.polls_eq, hlockstep.outcome, Event.errors_upToForms hlockstep.log⟩

/-! ### Marked rows -/

namespace MarkedRows

/-- Whether a raw value has a cell. -/
def hasCell : TypePredicate := fun value => .returned [] (value.field? "cell").isSome

theorem hasCell_readsFields : hasCell.ReadsFields := by
  intro value value' h
  rw [hasCell, hasCell, h.field]

/-- Rows with a cell. -/
def row : ObjectType :=
  ⟨"Row", none, .ofList [⟨"cell", none, ⟨"Int", .nullable⟩, .empty⟩], [], some hasCell⟩

/-- Lists of rows. -/
def rows : TypeRef := ⟨"Row", (Wrapping.nullable.wrapList?).getD .nullable⟩

def query : ObjectType := ⟨"Query", none, .ofList [⟨"rows", none, rows, .empty⟩], [], none⟩

/-- The selection of the cells of all rows. -/
def node : Field where
  label := none
  name := "rows"
  arguments := []
  directives := []
  selections := [.field ⟨none, "cell", [], [], [], ⟨1, 10⟩⟩]
  location := ⟨1, 3⟩

def ctx : ExecutionContext where
  schema := ⟨⟨[("Query", .object query), ("Row", .object row), ("Int", .scalar ScalarType.int)], "Query",
    none, none, []⟩, [], .standard⟩
  fragments := []
  operation := ⟨.query, [], [], [.field node], ⟨1, 1⟩⟩
  rootValue := .null
  context := none
  vars := .empty
  fieldResolver := .standard
  typeResolver := .standard
  middleware := .empty
  isEvent := false

def info : ResolveInfo :=
  ctx.resolveInfo query ⟨"rows", none, rows, .empty⟩ "rows" [node] (QueryPath.empty.field "rows" "Query")

/-- A row, an absent one and a number, in a list and behind markers. -/
def marked : FieldValue :=
  .typed (.list [.typed (.plain (.object [("cell", .number (.int 1))])) "Row", .plain .null,
    .typed (.typed (.plain (.number (.int 2))) "Row") "Line"]) "Table"

theorem readsObject (object : ObjectType)
    (h : ctx.schema.types.namedType? info.returnType = some (.object object)) :
    ctx.ReadsObject info object := by
  obtain rfl : row = object := TypeDefinition.object.inj (Option.some.inj h)
  refine ⟨fun isTypeOf hpredicate => ?_, fun _ _ node _ => ⟨rfl, rfl, rfl⟩⟩
  obtain rfl : hasCell = isTypeOf := Option.some.inj hpredicate
  exact hasCell_readsFields

end MarkedRows

/-- The number is no row, which is said of it with its markers and without. -/
theorem completion_ignores_representation_sample :
    MarkedRows.marked.toValue? =
        some (.list [.object [("cell", .number (.int 1))], .null, .number (.int 2)]) ∧
      (Completion.completeValue MarkedRows.ctx (MarkedRows.ctx.selectWithin 1) MarkedRows.info
        MarkedRows.marked).outcome =
          .ok (.ok (.list [.object [("cell", .number (.int 1))], .null, .null])) ∧
      SameUpToMessages
        (Completion.completeValue MarkedRows.ctx (MarkedRows.ctx.selectWithin 1) MarkedRows.info
          MarkedRows.marked)
        (Completion.completeValue MarkedRows.ctx (MarkedRows.ctx.selectWithin 1) MarkedRows.info
          (.plain (.list [.object [("cell", .number (.int 1))], .null, .number (.int 2)]))) :=
  ⟨rfl, rfl, completion_ignores_representation _ 1 _ rfl rfl MarkedRows.readsObject rfl⟩

end GraphQL
