import GraphQL.Proofs.Execution.Records

/-!
# Executions record errors as their trees say

The order is that of the log, so what has to be shown is which part of an execution logs its errors
when. A field records what goes wrong inside of it while it is completed. What it leaves is known
only when it is over, and is recorded, or handed on, when the results of its object or list are
gathered. The trees of `Records` say the same without any run, and each step of the recursion
realizes one of their forms.

The recursion over values, fields and selections, for the order in which errors are recorded:

* `completeLayers_records` — values of any type;
* `executeField_records`, `executeTogether_records`, `executeInTurn_records` — the fields of an object,
  side by side and one after the other;
* `selectWithin_records` — selections of any depth;
* `errors_of_ready` — the errors of a response, in order, if nothing is waited for.
-/

namespace GraphQL

open CompletionTree

/-! ### Values -/

section Values

variable {ctx : ExecutionContext} {select : Select} {grow : Grow}
  (hselect : SelectRecords select grow)

theorem completeScalar_records (scalar : ScalarType) (info : ResolveInfo) (path : QueryPath)
    (value : FieldValue) :
    RecordsTree (Completion.completeScalar scalar info path value)
      (ofScalar scalar info path value) := by
  rw [Completion.completeScalar, ofScalar]
  cases value.toValue? with
  | none => exact .failure _ _ _ _
  | some constant =>
    cases hserialize : scalar.serialize constant with
    | error message => simp only [hserialize]; exact .failure _ _ _ _
    | ok result => simp only [hserialize]; exact .leaf result

theorem completeEnum_records (type : EnumType) (info : ResolveInfo) (path : QueryPath)
    (value : FieldValue) :
    RecordsTree (Completion.completeEnum type info path value) (ofEnum type info path value) := by
  rw [Completion.completeEnum, ofEnum]
  cases value.toValue?.bind type.serialize? with
  | none => exact .failure _ _ _ _
  | some name => exact .leaf _

include hselect

theorem completeObject_records (object : ObjectType) (info : ResolveInfo) (path : QueryPath)
    (value : FieldValue) :
    RecordsTree (Completion.completeObject select object info path value)
      (ofObject grow object info path value) := by
  -- The fields inside are completed only once the value is accepted as one of the type.
  have hselected := hselect object (info.fieldNodes.map FieldNode.selections) value path
  rw [Completion.completeObject, ofObject]
  cases object.isTypeOf with
  | none => exact .bind (.value true) hselected
  | some isTypeOf =>
    refine .call_bind (fun log accepted hcall => ?_) (fun log message hcall => ?_)
    · simp only [hcall]
      cases accepted with
      | true => exact hselected
      | false => exact .failure _ _ _ _
    -- A panic of the check is one of the execution: neither side goes on.
    · simp only [hcall]

theorem completeAbstract_records (abstractType : String) (info : ResolveInfo) (path : QueryPath)
    (value : FieldValue) :
    RecordsTree (Completion.completeAbstract ctx select abstractType info path value)
      (ofAbstract ctx grow abstractType info path value) := by
  rw [Completion.completeAbstract, ofAbstract]
  refine .call_bind (fun log name hcall => ?_) (fun log message hcall => ?_)
  · simp only [hcall]
    cases Completion.concreteType ctx.schema.types abstractType name with
    | error fault => exact .failure _ _ _ _
    | ok object => exact completeObject_records hselect object info path value
  · simp only [hcall]

theorem completeNamed_records (typeName : String) (info : ResolveInfo) (path : QueryPath)
    (value : FieldValue) :
    RecordsTree (Completion.completeNamed ctx select typeName info path value)
      (ofNamed ctx grow typeName info path value) := by
  rw [Completion.completeNamed, ofNamed]
  -- A type name that the schema does not know is a failure, here as in the tree.
  cases ctx.schema.types.type? typeName with
  | none => exact .failure _ _ _ _
  | some definition =>
    cases definition with
    | scalar scalar => exact completeScalar_records scalar info path value
    | object object => exact completeObject_records hselect object info path value
    | interface _ | union _ => exact completeAbstract_records hselect typeName info path value
    | enum type => exact completeEnum_records type info path value
    | inputObject _ => exact .failure _ _ _ _

omit hselect in
/-- The items of a list wait for each other: only then is it decided which of their errors are
recorded. -/
theorem items_record {run : Nat → FieldValue → Run Completed}
    {tree : Nat → FieldValue → CompletionTree} (nonNull : Bool) (items : List FieldValue)
    (h : ∀ index item, RecordsTree (run index item) (tree index item)) :
    RecordsTree
      ((Coroutine.joinAll (items.mapIdx run)).bind (Completion.gatherItems nonNull))
      (.branch .list (items.mapIdx fun index item =>
        { segment := .index index
          nonNull := nonNull
          call := none
          tree := tree index item })) := by
  rw [List.mapIdx_eq_zipIdx_map, List.mapIdx_eq_zipIdx_map]
  -- Sound is the list only if all of its items are, so that each item records what its tree says.
  intro hsound
  rw [isSound_branch_iff, List.forall_mem_map] at hsound
  have hitems := Records.joinAll fun i hi => h i.2 i.1 (hsound i hi)
  have hnonNull : ∀ place ∈ items.zipIdx.map fun i =>
      ({ segment := .index i.2, nonNull := nonNull, call := none, tree := tree i.2 i.1 } :
        Place CompletionTree), place.nonNull = nonNull := List.forall_mem_map.mpr fun _ _ => rfl
  -- What is left open by the items is recorded by the list, once it is known that it is null.
  rw [completed, map_value_list, recorded_list hnonNull, List.flatMap_map, List.map_map,
    List.map_map]
  have hgather := Records.gatherItems nonNull
    (items.zipIdx.map fun i => (tree i.2 i.1).completed)
  rw [List.map_map] at hgather
  exact hitems.bind hgather

/-- Values of any type. The induction is on the list wrappers of the type. -/
theorem completeLayers_records (typeName : String) (innerRequired : Bool) (info : ResolveInfo)
    (wrappers : List ListWrapping) (path : QueryPath) (value : FieldValue) :
    RecordsTree
      (Completion.completeLayers ctx select typeName innerRequired info wrappers path value)
      (ofLayers ctx grow typeName innerRequired info wrappers path value) := by
  induction wrappers generalizing path value with
  | nil =>
    -- No list wrapper is left: a null is checked against the type inside, anything else is
    -- completed by it.
    rw [Completion.completeLayers, ofLayers]
    by_cases hnull : value.isNull = true
    · rw [if_pos hnull, if_pos hnull]
      exact .requireNull innerRequired info path
    · rw [if_neg hnull, if_neg hnull]
      exact (completeNamed_records hselect typeName info path value).required _ info path
  | cons wrapper inner ih =>
    -- The outermost list: a null is checked against its wrapper, anything else has to be a list of
    -- items.
    rw [Completion.completeLayers, ofLayers]
    by_cases hnull : value.isNull = true
    · rw [if_pos hnull, if_pos hnull]
      exact .requireNull _ info path
    · rw [if_neg hnull, if_neg hnull]
      cases Completion.items? value with
      | none => exact .failure _ _ _ _
      | some items => exact items_record _ items fun index item => ih (path.index index) item

end Values

namespace ExecutionContext

variable {ctx : ExecutionContext}

/-! ### Fields -/

section Fields

variable {select : Select} {grow : Grow} (hselect : SelectRecords select grow)
include hselect

/-- A field with a definition records what its place says. Its own steps log calls and settlements
only, so every recorded error comes from completing the value, or is that of the field, which is
recorded where it is absorbed. -/
theorem executeDefined_records (object : ObjectType) (parent : FieldValue) (atRoot : Bool)
    (key : String) (definition : FieldDefinition) (node : Field) (info : ResolveInfo) :
    RecordsField (ctx.executeDefined select object parent atRoot definition node info)
      (ctx.definedPlace grow object parent atRoot key definition node info) := by
  rw [executeDefined, definedPlace]
  -- The arguments are coerced first. A coercion without end breaks the tree as it breaks the run.
  cases harguments : Coercion.coerceArguments ctx.schema.types definition node ctx.vars with
  | error failure =>
    cases failure with
    | endless => exact fun hsound => absurd hsound (not_isSound_broken _)
    | invalid error => exact (RecordsTree.failed _).absorb _ _ _
  | ok arguments =>
    simp only
    rw [resolved]
    generalize hresolver : ctx.middleware.wrap object.name node.name
      (ctx.baseResolver object.name node.name atRoot) = resolver
    -- Which resolver is asked plays no part: only its outcome does.
    cases houtcome : (ctx.invoke resolver ⟨parent, arguments, info, ctx.context⟩).outcome with
    | error why => exact fun hsound => absurd hsound (not_isSound_broken _)
    | ok result =>
      obtain ⟨events, hquiet, hends⟩ := invoke_ends houtcome
      -- What a resolver does itself are no recorded errors.
      have hevents : (Event.called info.path parent arguments :: events).filterMap Event.error? = [] := by
        rw [List.filterMap_cons_none rfl]
        exact filterMap_error?_of_quiet hquiet
      have hinvoked := Records.of_ends hends hevents
      intro hsound
      refine hinvoked.bind ?_
      -- An error of the resolver is absorbed by a nullable field as any other failure is.
      cases result with
      | error error => exact (RecordsTree.failed _).absorb _ _ _ hsound
      | ok value => exact (completeLayers_records hselect _ _ _ _ _ _).absorb _ _ _ hsound

/-- **A field records what its place says.** -/
theorem executeField_records (object : ObjectType) (parent : FieldValue) (path : QueryPath)
    (key : String) (nodes : List Field) :
    RecordsField (ctx.executeField select object parent path key nodes)
      (ctx.fieldPlace grow object parent path key nodes) := by
  cases nodes with
  -- An empty group is no group of a request, and the tree says so by being broken.
  | nil => exact fun hsound => absurd hsound (not_isSound_broken _)
  | cons node others =>
    rw [executeField, fieldPlace]
    by_cases htypename : (node.name == "__typename") = true
    · simp only [if_pos htypename]
      exact fun _ => .value _
    · simp only [if_neg htypename]
      cases object.field? node.name with
      | none => exact (RecordsTree.failed _).absorb _ _ _
      | some definition => exact executeDefined_records hselect _ _ _ _ _ _ _

end Fields

/-! ### Objects -/

section Groups

variable {execute : String → List Field → Run Completed}
  {place : String × List Field → Place CompletionTree} {groups : FieldGroups}

/-- **Fields side by side** record what they do inside, in the order of their turns, and the first
of the errors that they leave is handed on. The others are recorded when the results are gathered,
after all turns. -/
theorem executeTogether_records
    (h : ∀ group ∈ groups, RecordsField (execute group.1 group.2) (place group))
    (hkey : ∀ group ∈ groups, (place group).segment = .field group.1) :
    RecordsTree ((executeTogether execute groups).map (Except.map .object))
      (.branch .object (groups.map place)) := by
  intro hsound
  rw [isSound_branch_iff, List.forall_mem_map] at hsound
  -- All fields are run, and each of them records its own errors.
  have hfields := Records.joinAll fun group hmem =>
    (h group hmem (hsound group hmem)).map (Except.map fun value => (group.1, value))
  have hentries : (groups.map fun group =>
        (place group).completed.map fun value => (group.1, value)) =
      (groups.map place).map fun place => place.completed.map fun value =>
        (place.segment.text, value) := by
    rw [List.map_map]
    refine List.map_congr_left fun group hmem => ?_
    rw [Function.comp_apply, hkey group hmem]
    rfl
  -- The errors that the fields leave open are those that the places leave.
  have hleft : errorsOf (groups.map fun group =>
        (place group).completed.map fun value => (group.1, value)) =
      (groups.map place).flatMap Place.left := by
    rw [hentries, Yields.errorsOf_eq_flatMap, List.flatMap_map]
    exact List.flatMap_congr fun place _ => leftBy_map _ place.completed
  -- The first of them is handed on, and the others are recorded when the entries are gathered.
  have hgather := Records.gather (groups.map fun group =>
    (place group).completed.map fun value => (group.1, value))
  rw [hleft, hentries, ← map_completedPlaces fun entry => (entry.1.text, entry.2)] at hgather
  rw [completed, map_value_object, recorded_object, List.flatMap_map]
  rw [hentries] at hfields
  exact (hfields.bind hgather).map _

/-- Fields one after the other: at most the last one leaves an error. The induction is on the
fields. Since nothing is run after a field that fails, there is never a second error to be recorded
late. -/
theorem executeInTurn_records
    (h : ∀ group ∈ groups, RecordsField (execute group.1 group.2) (place group))
    (hkey : ∀ group ∈ groups, (place group).segment = .field group.1)
    (hsound : ∀ reached ∈ reachedInTurn (groups.map place), reached.tree.IsSound) :
    Records (executeInTurn execute groups)
      ((completedPlaces (reachedInTurn (groups.map place))).map
        (List.map fun entry => (entry.1.text, entry.2)))
      ((reachedInTurn (groups.map place)).flatMap (Place.recorded .object)) := by
  induction groups with
  | nil => exact .value _
  | cons group rest ih =>
    have hfirst := h group List.mem_cons_self
    rw [List.map_cons, reachedInTurn] at hsound ⊢
    rw [executeInTurn]
    cases hcompleted : (place group).completed with
    -- The field fails: nothing after it is run, and its error is all that is left.
    | error error =>
      rw [hcompleted] at hsound
      have hrecords := hfirst (hsound (place group) List.mem_cons_self)
      rw [hcompleted] at hrecords
      simp only
      rw [completedPlaces_cons, hcompleted, List.flatMap_singleton,
        ← List.append_nil (Place.recorded .object (place group))]
      exact hrecords.bind (.value _)
    | ok value =>
      -- The field is completed: its entry is put in front of what the others give.
      rw [hcompleted] at hsound
      have hrecords := hfirst (hsound (place group) List.mem_cons_self)
      rw [hcompleted] at hrecords
      have hrest := ih (fun other hmem => h other (List.mem_cons_of_mem group hmem))
        (fun other hmem => hkey other (List.mem_cons_of_mem group hmem))
        (fun reached hmem => hsound reached (List.mem_cons_of_mem (place group) hmem))
      have hentries :
          (completedPlaces (place group :: reachedInTurn (rest.map place))).map
              (List.map fun entry => (entry.1.text, entry.2)) =
            ((completedPlaces (reachedInTurn (rest.map place))).map
              (List.map fun entry => (entry.1.text, entry.2))).map ((group.1, value) :: ·) := by
        rw [completedPlaces_cons, hcompleted, hkey group List.mem_cons_self]
        cases completedPlaces (reachedInTurn (rest.map place)) <;> rfl
      rw [hentries, List.flatMap_cons]
      exact hrecords.bind (hrest.map _)

/-- No more than one of the places that are reached in turn leaves an error. -/
theorem left_reachedInTurn (places : List (Place CompletionTree)) :
    ((reachedInTurn places).flatMap Place.left).tail = [] := by
  induction places with
  | nil => rfl
  | cons place rest ih =>
    rw [reachedInTurn]
    cases hcompleted : place.completed with
    | error error =>
      rw [List.flatMap_singleton, Place.left, hcompleted]
      rfl
    | ok value =>
      have hleft : place.left = [] := by rw [Place.left, hcompleted]; rfl
      -- Only the rest can leave an error, as the induction hypothesis says of it.
      rw [List.flatMap_cons, hleft, List.nil_append]
      exact ih

end Groups

/-! ### Selections -/

/-- The fields of an object record what their places say, side by side or in turn. Each field does
so for itself, whichever way they are put together; only what is left over for the object depends on
that. -/
theorem executeGroups_records {select : Select} {grow : Grow} (serial : Bool)
    (hselect : SelectRecords select grow) (object : ObjectType) (parent : FieldValue)
    (path : QueryPath) (groups : FieldGroups) :
    RecordsTree (ctx.executeGroups select serial object parent path groups)
      (if serial then (ctx.groupsTree grow object parent path groups).inTurn
        else ctx.groupsTree grow object parent path groups) := by
  -- What the fields record does not depend on how they are put together.
  have hfields : ∀ group ∈ groups,
      RecordsField (ctx.executeField select object parent path group.1 group.2)
        (ctx.fieldPlace grow object parent path group.1 group.2) :=
    fun group _ => executeField_records hselect object parent path group.1 group.2
  have hkeys : ∀ group ∈ groups,
      (ctx.fieldPlace grow object parent path group.1 group.2).segment = .field group.1 :=
    fun group _ => fieldPlace_segment ctx grow object parent path group.1 group.2
  cases serial with
  | false => exact executeTogether_records hfields hkeys
  | true =>
    intro hsound
    have hturn := executeInTurn_records hfields hkeys (isSound_branch_iff.mp hsound)
    -- In turn no second error is ever left over, so that the object has none to record.
    have hrecorded : ((ctx.groupsTree grow object parent path groups).inTurn).recorded =
        (reachedInTurn (groups.map fun group =>
          ctx.fieldPlace grow object parent path group.1 group.2)).flatMap
            (Place.recorded .object) := by
      rw [groupsTree, inTurn, recorded_object, left_reachedInTurn, List.append_nil]
    rw [if_pos rfl, hrecorded, groupsTree, inTurn, completed, map_value_object]
    exact hturn.map _

/-- **Nested selections.** The induction is on the depth that is left. -/
theorem selectWithin_records (depth : Nat) :
    SelectRecords (ctx.selectWithin depth) (ctx.growWithin depth) := by
  induction depth with
  | zero => exact fun _ _ _ _ => .broken _ .endless
  | succ depth ih =>
    exact fun object selectionSets value path =>
      executeGroups_records false ih object value path (ctx.collectFields object selectionSets)

/-! ### Responses -/

/-- The errors of an operation, in the order in which they are recorded if nothing is waited for. -/
def recordedErrors (ctx : ExecutionContext) : List GraphQLError :=
  ctx.reachedTree.recorded ++ leftBy ctx.reachedTree.completed

theorem executeOperation_records (hsound : ctx.reachedTree.IsSound) :
    Records ctx.executeOperation ctx.reachedTree.completed.valueOrNull ctx.recordedErrors := by
  rw [recordedErrors, executeOperation]
  cases hroot : ctx.rootType? with
  -- A context without a root type has a broken tree.
  | none => exact absurd hsound (not_isSound_of_rootType_none hroot)
  | some root =>
    have hfields : Records (ctx.executeGroups (ctx.selectWithin ctx.depthLimit) ctx.isSerial root
        ctx.rootValue .empty (ctx.collectFields root [ctx.operation.selections]))
        ctx.reachedTree.completed ctx.reachedTree.recorded := by
      rw [reachedTree, tree, hroot] at hsound ⊢
      exact executeGroups_records _ (selectWithin_records _) _ _ _ _ hsound
    -- An error of the whole operation is recorded at the end, with null for the data.
    refine hfields.bind ?_
    cases ctx.reachedTree.completed with
    | error error => exact .finish [error] Value.null
    | ok data => exact .value data

theorem respondWith_isReady (expose : Bool) (recorded : List GraphQLError) (run : Run Value) :
    (respondWith expose recorded run).isReady = run.isReady := by
  cases run <;> rfl

/-- **The errors of a response that is there at once**, in order. -/
theorem errors_of_ready {response : Response} (h : ctx.respond.outcome = .ok response)
    (hready : ctx.respond.isReady = true) :
    response.errors = ctx.recordedErrors.map ctx.shownError := by
  have hanswer := answer_of_outcome h
  rw [respond, respondWith_isReady] at hready
  rw [hanswer.errors, respond, respondWith_log,
    (executeOperation_records hanswer.sound).recorded hready]

end ExecutionContext

end GraphQL
