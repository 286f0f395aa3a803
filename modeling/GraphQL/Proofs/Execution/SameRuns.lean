import GraphQL.Proofs.Execution.Scheduling

/-!
# Executions that do the same

Two executions of one request do the same, visit by visit, if the resolvers that they call do. Which ones
these are depends on the object types and on whether a field is at the root, and of the ways to execute
the selections below a field only those count that the field is executed with.

* `SelectsSame` — two ways to execute selections that do the same below some nodes;
* `ExecutionContext.ResolvesSame` — resolvers of a field that do the same when they are called for it;
* `completeLayers_congr`, `executeField_congr` — values and fields;
* `executeGroups_congr` — the fields of an object;
* `selectWithin_congr` — nested selections, at every depth;
* `SameRequest.respond_eq` — and operations, if the resolvers that they call do.
-/

namespace GraphQL

/-- Two ways to execute selections do the same below some nodes, away from the root. -/
def SelectsSame (select select' : Select) (nodes : List Field) : Prop :=
  ∀ object value (path : QueryPath), path.isEmpty = false →
    select object (nodes.map FieldNode.selections) value path =
      select' object (nodes.map FieldNode.selections) value path

/-- The resolvers of a field do the same when they are called for the field, behind all interceptors. -/
def ExecutionContext.ResolvesSame (ctx ctx' : ExecutionContext) (typeName fieldName : String)
    (atRoot : Bool) : Prop :=
  ∀ resolverContext : ResolverContext, resolverContext.info.parentType.name = typeName →
    resolverContext.info.fieldName = fieldName →
    ctx.invoke (ctx.middleware.wrap typeName fieldName (ctx.baseResolver typeName fieldName atRoot))
        resolverContext =
      ctx'.invoke (ctx'.middleware.wrap typeName fieldName (ctx'.baseResolver typeName fieldName atRoot))
        resolverContext

variable {ctx ctx' : ExecutionContext} {select select' : Select}

theorem ExecutionContext.SameRequest.refl (ctx : ExecutionContext) : ctx.SameRequest ctx where
  types := rfl
  config := rfl
  resolveType _ := rfl
  fragments := rfl
  operation := rfl
  rootValue := rfl
  context := rfl
  vars := rfl
  typeResolver := rfl
  isEvent := rfl

namespace Completion

variable {info : ResolveInfo} {path : QueryPath} (hselect : SelectsSame select select' info.fieldNodes)
  (hpath : path.isEmpty = false)
include hselect hpath

theorem completeObject_congr (object : ObjectType) (value : FieldValue) :
    completeObject select object info path value = completeObject select' object info path value := by
  rw [completeObject, completeObject, hselect object value path hpath]

theorem completeAbstract_congr (h : ctx.SameRequest ctx') (typeName : String) (value : FieldValue) :
    completeAbstract ctx select typeName info path value =
      completeAbstract ctx' select' typeName info path value := by
  rw [completeAbstract, completeAbstract, h.types, h.resolveType, h.typeResolver]
  simp only [completeObject_congr hselect hpath]

theorem completeNamed_congr (h : ctx.SameRequest ctx') (typeName : String) (value : FieldValue) :
    completeNamed ctx select typeName info path value =
      completeNamed ctx' select' typeName info path value := by
  rw [completeNamed, completeNamed, h.types, completeAbstract_congr hselect hpath h]
  simp only [completeObject_congr hselect hpath]

/-- A value against a type. The induction is on the list wrappers of the type. -/
theorem completeLayers_congr (h : ctx.SameRequest ctx') (typeName : String) (innerRequired : Bool)
    (wrappers : List ListWrapping) (value : FieldValue) :
    completeLayers ctx select typeName innerRequired info wrappers path value =
      completeLayers ctx' select' typeName innerRequired info wrappers path value := by
  induction wrappers generalizing path value with
  | nil => rw [completeLayers, completeLayers, completeNamed_congr hselect hpath h]
  | cons wrapper inner ih =>
    have hitems : ∀ index item,
        completeLayers ctx select typeName innerRequired info inner (path.index index) item =
          completeLayers ctx' select' typeName innerRequired info inner (path.index index) item :=
      fun index item => ih rfl item
    simp only [completeLayers, hitems]

end Completion

namespace ExecutionContext

section Fields

variable (h : ctx.SameRequest ctx') {object : ObjectType} {path : QueryPath}

include h in
/-- The selections under one response key, if the resolver of their field does the same. Everything
else about a field is read from the document and the types, which both contexts share; so resolvers
are all that has to be compared. -/
theorem executeField_congr {nodes : List Field} (hselect : SelectsSame select select' nodes)
    (hresolves : ∀ node ∈ nodes.head?, ctx.ResolvesSame ctx' object.name node.name path.isEmpty)
    (parent : FieldValue) (key : String) :
    ctx.executeField select object parent path key nodes =
      ctx'.executeField select' object parent path key nodes := by
  cases nodes with
  | nil => rfl
  | cons node others =>
    rw [executeField, executeField]
    split
    · rfl
    · cases object.field? node.name with
      | none => rfl
      | some definition =>
        -- Values are completed alike, as the selections inside are executed alike.
        have hvalue : ∀ value, Completion.completeValue ctx select
            (ctx'.resolveInfo object definition node.name (node :: others)
              (path.field key object.name)) value =
          Completion.completeValue ctx' select'
            (ctx'.resolveInfo object definition node.name (node :: others)
              (path.field key object.name)) value :=
          fun value => Completion.completeLayers_congr hselect rfl h _ _ _ value
        -- The resolver is called with the same arguments in the same place.
        have hcall := fun arguments => hresolves node (Option.mem_some_self node)
          ⟨parent, arguments,
            ctx'.resolveInfo object definition node.name (node :: others) (path.field key object.name),
            ctx'.context⟩ rfl rfl
        simp only [h.resolveInfo_eq, executeDefined, h.types, h.vars, h.context, hcall, hvalue]

/-- One after the other. The induction is on the fields. -/
theorem executeInTurn_congr {execute execute' : String → List Field → Run Completed}
    {groups : FieldGroups}
    (hsame : ∀ group ∈ groups, execute group.1 group.2 = execute' group.1 group.2) :
    executeInTurn execute groups = executeInTurn execute' groups := by
  induction groups with
  | nil => rfl
  | cons group rest ih =>
    obtain ⟨hfirst, hrest⟩ := List.forall_mem_cons.mp hsame
    rw [executeInTurn, executeInTurn, hfirst, ih hrest]

theorem executeTogether_congr {execute execute' : String → List Field → Run Completed}
    {groups : FieldGroups}
    (hsame : ∀ group ∈ groups, execute group.1 group.2 = execute' group.1 group.2) :
    executeTogether execute groups = executeTogether execute' groups := by
  have hruns : (groups.map fun group =>
      (execute group.1 group.2).map (Except.map fun value => (group.1, value))) =
    groups.map fun group =>
      (execute' group.1 group.2).map (Except.map fun value => (group.1, value)) :=
    List.map_congr_left fun group hgroup => by rw [hsame group hgroup]
  rw [executeTogether, executeTogether, hruns]

include h in
/-- **The fields of an object** do the same if the resolvers that are called for them and the selections
below them do. -/
theorem executeGroups_congr {groups : FieldGroups}
    (hselect : ∀ group ∈ groups, SelectsSame select select' group.2)
    (hresolves : ∀ group ∈ groups, ∀ node ∈ group.2.head?,
      ctx.ResolvesSame ctx' object.name node.name path.isEmpty)
    (serial : Bool) (parent : FieldValue) :
    ctx.executeGroups select serial object parent path groups =
      ctx'.executeGroups select' serial object parent path groups := by
  have hsame : ∀ group ∈ groups, ctx.executeField select object parent path group.1 group.2 =
      ctx'.executeField select' object parent path group.1 group.2 :=
    fun group hgroup =>
      executeField_congr h (hselect group hgroup) (hresolves group hgroup) parent group.1
  rw [executeGroups, executeGroups, executeInTurn_congr hsame, executeTogether_congr hsame]

end Fields

/-- **Nested selections** do the same if all resolvers do that are called away from the root. The
induction is on the depth that is left. -/
theorem selectWithin_congr (h : ctx.SameRequest ctx')
    (hresolves : ∀ typeName fieldName, ctx.ResolvesSame ctx' typeName fieldName false) (depth : Nat)
    (nodes : List Field) :
    SelectsSame (ctx.selectWithin depth) (ctx'.selectWithin depth) nodes := by
  induction depth generalizing nodes with
  | zero => exact fun _ _ _ _ => rfl
  | succ depth ih =>
    intro object value path hpath
    rw [selectWithin, selectWithin]
    simp only [h.collectFields_eq]
    refine executeGroups_congr h (fun group _ => ih group.2) (fun _ _ node _ => ?_) false value
    rw [hpath]
    exact hresolves object.name node.name

namespace SameRequest

/-- A resolver is called in the same way. -/
theorem invoke_eq (h : ctx.SameRequest ctx') : ctx.invoke = ctx'.invoke := by
  funext resolver resolverContext
  rw [invoke, invoke, h.config]

/-- One resolver does the same in both. -/
theorem resolvesSame (h : ctx.SameRequest ctx') {typeName fieldName : String} {atRoot : Bool}
    (hsame : ctx.middleware.wrap typeName fieldName (ctx.baseResolver typeName fieldName atRoot) =
      ctx'.middleware.wrap typeName fieldName (ctx'.baseResolver typeName fieldName atRoot)) :
    ctx.ResolvesSame ctx' typeName fieldName atRoot := by
  intro resolverContext _ _
  rw [hsame, h.invoke_eq]

/-- **Operations** do the same if the resolvers of their root fields do, and all those that are called
away from the root. -/
theorem respond_eq (h : ctx.SameRequest ctx')
    (hroot : ∀ root, ctx.rootType? = some root →
      ∀ group ∈ ctx.collectFields root [ctx.operation.selections], ∀ node ∈ group.2.head?,
        ctx.ResolvesSame ctx' root.name node.name true)
    (hnested : ∀ typeName fieldName, ctx.ResolvesSame ctx' typeName fieldName false) :
    ctx.respond = ctx'.respond := by
  have hselect := selectWithin_congr h hnested
  have hoperation : ctx.executeOperation = ctx'.executeOperation := by
    rw [executeOperation, executeOperation, ← h.rootType?_eq]
    cases hfound : ctx.rootType? with
    | none => rfl
    | some root =>
      -- The root itself is at the empty path, so its fields have the resolvers of the root.
      have hresolves : ∀ group ∈ ctx.collectFields root [ctx.operation.selections],
          ∀ node ∈ group.2.head?, ctx.ResolvesSame ctx' root.name node.name QueryPath.empty.isEmpty :=
        hroot root hfound
      have hgroups := executeGroups_congr h
        (fun group (_ : group ∈ ctx.collectFields root [ctx.operation.selections]) =>
          hselect ctx.depthLimit group.2)
        hresolves ctx.isSerial ctx.rootValue
      simp only [hgroups, ← h.depthLimit_eq, ← h.isSerial_eq, ← h.rootValue, ← h.operation,
        ← h.collectFields_eq]
  rw [respond, respond, hoperation, h.config]

end SameRequest

end ExecutionContext

end GraphQL
