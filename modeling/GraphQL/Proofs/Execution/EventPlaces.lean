import GraphQL.Proofs.Execution.EventLogs

/-!
# Where calls and settlements happen

Every call of a resolver and every settlement is logged with its place in the response. While a
field is executed, both happen at the place of the field or inside of it, whatever becomes of the
field.

The places of an object are not known before its fields are executed, so the statement is about
whatever happens: nothing outside of the place. It is kept by every way to put runs together, and
what nested selections do is a hypothesis until the run lemma.

* `Event.trace` — the places of the calls and settlements in a log, in order;
* `Event.Within base` — the event does not happen outside of a place;
* `completeLayers_within`, `executeField_within` — values and fields, if nested selections stay
  within their places;
* `selectWithin_within` — the run lemma: nested selections do so at every depth.
-/

namespace GraphQL

namespace Event

/-- The place whose resolver is called or has settled. -/
def place? : Event → Option ErrorPath
  | .called path _ _ => some path.toErrorPath
  | .settled path => some path.toErrorPath
  | _ => none

/-- The places of the calls and settlements among some events, in order. -/
def trace (events : List Event) : List ErrorPath := events.filterMap place?

theorem trace_append (events events' : List Event) :
    trace (events ++ events') = trace events ++ trace events' := List.filterMap_append ..

theorem mem_trace {events : List Event} {path : ErrorPath} :
    path ∈ trace events ↔ ∃ event ∈ events, event.place? = some path := List.mem_filterMap

/-- A call or settlement, if the event is one, happens at a place or inside of it. -/
def Within (base : ErrorPath) (event : Event) : Prop :=
  ∀ path, event.place? = some path → base <+: path

variable {base : ErrorPath}

theorem within_of_place?_eq_none {event : Event} (h : event.place? = none) :
    event.Within base := by
  intro path hpath
  exact absurd (h.symm.trans hpath) (by simp)

theorem within_said (text : String) : (Event.said text).Within base :=
  within_of_place?_eq_none rfl

theorem Within.of_initial {base' : ErrorPath} {event : Event} (h : event.Within base')
    (hinit : base <+: base') : event.Within base :=
  fun path hpath => hinit.trans (h path hpath)

theorem within_called (path : QueryPath) (parent : FieldValue) (arguments : Arguments) :
    (Event.called path parent arguments).Within path.toErrorPath := by
  intro place hplace
  exact (Option.some.inj hplace) ▸ List.prefix_rfl

theorem within_settled (path : QueryPath) : (Event.settled path).Within path.toErrorPath := by
  intro place hplace
  exact (Option.some.inj hplace) ▸ List.prefix_rfl

end Event

open Event

/-! ### Errors -/

section Errors

variable {base : ErrorPath}

theorem fail_within (error : GraphQLError) : (Completed.fail error).Logs (Within base) :=
  fail_logs (within_of_place?_eq_none rfl)

theorem recorded_within (error : GraphQLError) : (Event.recorded error).Within base :=
  within_of_place?_eq_none rfl

end Errors

/-! ### Values -/

/-- Nested selections stay within the place of their object. -/
def SelectStays (select : Select) : Prop :=
  ∀ object selectionSets value (path : QueryPath),
    (select object selectionSets value path).Logs (Within path.toErrorPath)

namespace Completion

variable {select : Select} {info : ResolveInfo} {path : QueryPath}

theorem requireValue_within (nonNull : Bool) (completed : Completed) :
    (requireValue nonNull info path completed).Logs (Within path.toErrorPath) := by
  unfold requireValue
  split
  · split
    · exact fail_within _
    · exact .nothing _
  · exact .nothing _

section Values

variable (hselect : SelectStays select)
include hselect

theorem completeObject_within (object : ObjectType) (value : FieldValue) :
    (completeObject select object info path value).Logs (Within path.toErrorPath) := by
  unfold completeObject
  refine Coroutine.Logs.bind ?_ fun accepted => ?_
  · cases object.isTypeOf with
    | none => exact .nothing true
    | some isTypeOf => exact Coroutine.logs_toCoroutine _ within_said
  · cases accepted with
    | true => exact hselect object (info.fieldNodes.map FieldNode.selections) value path
    | false => exact fail_within _

theorem completeNamed_within (ctx : ExecutionContext) (typeName : String) (value : FieldValue) :
    (completeNamed ctx select typeName info path value).Logs (Within path.toErrorPath) := by
  have habstract : (completeAbstract ctx select typeName info path value).Logs
      (Within path.toErrorPath) := by
    -- Telling the object types apart logs no more than what the callback says.
    refine Coroutine.Logs.bind (Coroutine.logs_toCoroutine _ within_said) fun name => ?_
    split
    · exact completeObject_within hselect _ value
    · exact fail_within _
  unfold completeNamed
  split
  · -- A scalar has a value or fails, and calls no resolver.
    simp only [completeScalar]
    split
    · exact .nothing _
    · exact fail_within _
  · unfold completeEnum
    split
    · exact .nothing _
    · exact fail_within _
  · exact completeObject_within hselect _ value
  · exact habstract
  · exact habstract
  · exact fail_within _
  · exact fail_within _

/-- **Values stay within their place.** The induction is on the list wrappers of the type. -/
theorem completeLayers_within (ctx : ExecutionContext) (typeName : String) (innerRequired : Bool)
    (wrappers : List ListWrapping) (value : FieldValue) :
    (completeLayers ctx select typeName innerRequired info wrappers path value).Logs
      (Within path.toErrorPath) := by
  induction wrappers generalizing path value with
  | nil =>
    rw [completeLayers]
    split
    · exact requireValue_within innerRequired _
    · exact (completeNamed_within hselect ctx typeName value).bind (requireValue_within innerRequired)
  | cons wrapper inner ih =>
    rw [completeLayers]
    split
    · exact requireValue_within _ _
    · split
      · refine Coroutine.Logs.bind (.joinAll fun run hmem => ?_)
          (gatherItems_logs recorded_within _)
        obtain ⟨i, hi, rfl⟩ := List.mem_mapIdx.mp hmem
        -- The place of an item is inside that of the list.
        have hinside : path.toErrorPath <+: (path.index i).toErrorPath := by
          rw [show (path.index i).toErrorPath = path.toErrorPath ++ [.index i] from
            QueryPath.segments_child ..]
          exact List.prefix_append _ _
        exact (ih _).mono fun event h => h.of_initial hinside
      · exact fail_within _

end Values

end Completion

/-! ### Fields and selections -/

namespace ExecutionContext

variable {ctx : ExecutionContext} {select : Select}

/-- A resolver is called and settles at the place of its field. What else is logged meanwhile are
texts of callbacks. -/
theorem invoke_within (resolver : Resolver) (resolverContext : ResolverContext) :
    (ctx.invoke resolver resolverContext).Logs
      (Within resolverContext.info.path.toErrorPath) :=
  invoke_logs (within_called _ _ _) (within_settled _) within_said

section Fields

variable (hselect : SelectStays select)
include hselect

theorem executeDefined_within (object : ObjectType) (parent : FieldValue) (atRoot : Bool)
    (definition : FieldDefinition) (node : Field) (info : ResolveInfo) :
    (ctx.executeDefined select object parent atRoot definition node info).Logs
      (Within info.path.toErrorPath) := by
  unfold executeDefined
  split
  · -- Arguments that cannot be coerced because types include each other for ever.
    intro event hmem
    exact absurd hmem List.not_mem_nil
  · exact (fail_within _).bind (absorb_logs recorded_within _)
  -- The resolver is called at the place of the field, and what it returns is completed there.
  · refine Coroutine.Logs.bind (invoke_within _ _) fun result => ?_
    refine Coroutine.Logs.bind ?_ (absorb_logs recorded_within _)
    split
    · exact fail_within _
    · exact Completion.completeLayers_within hselect ctx _ _ _ _

/-- **Fields stay within their place.** -/
theorem executeField_within (object : ObjectType) (parent : FieldValue) (path : QueryPath)
    (key : String) (nodes : List Field) :
    (ctx.executeField select object parent path key nodes).Logs
      (Within (path.toErrorPath ++ [.field key])) := by
  -- The place of the field is the place of the object and the key.
  have hpath : (path.field key object.name).toErrorPath = path.toErrorPath ++ [.field key] :=
    QueryPath.segments_child ..
  rw [← hpath]
  unfold executeField
  split
  · exact fun event hmem => absurd hmem List.not_mem_nil
  · simp only
    split
    · exact .nothing _
    · split
      · exact (fail_within _).bind (absorb_logs recorded_within _)
      · exact executeDefined_within hselect object parent _ _ _ _

theorem executeTogether_within (object : ObjectType) (parent : FieldValue) (path : QueryPath)
    (groups : FieldGroups) :
    (executeTogether (ctx.executeField select object parent path) groups).Logs
      (Within path.toErrorPath) := by
  refine executeTogether_logs (fun group _ => ?_) recorded_within
  have hfield : (ctx.executeField select object parent path group.1 group.2).Logs
      (Within (path.toErrorPath ++ [.field group.1])) :=
    executeField_within hselect object parent path group.1 group.2
  exact hfield.mono fun event h => h.of_initial (List.prefix_append _ _)

omit hselect in
/-- **Nested selections stay within the place of their object.** The induction is on the depth that
is left. -/
theorem selectWithin_within (depth : Nat) : SelectStays (ctx.selectWithin depth) := by
  induction depth with
  | zero =>
    intro object selectionSets value path event hmem
    exact absurd hmem List.not_mem_nil
  | succ depth ih =>
    intro object selectionSets value path
    exact Coroutine.logs_map_iff.mpr
      (executeTogether_within ih object value path (ctx.collectFields object selectionSets))

end Fields

end ExecutionContext

end GraphQL
