import GraphQL.Proofs.Execution.Growth
import GraphQL.Proofs.Execution.Yields

/-!
# Executions realize their trees

Every part of an execution does what the completion tree says that was grown for it by plain
recursion: it ends with the value of the tree or with the error that the tree leaves, its failures
and calls are those of the tree, and it breaks down exactly if the tree does. How often resolvers
are visited before they settle plays no part in a tree, so it changes none of this.

* `Realizes run tree`, `RealizesPlace run place` — the run of a place agrees with its tree, before
  and after errors are absorbed;
* `SelectRealizes select grow` — the invariant of the recursion over nested selections;
* `Realizes.required` — the null check;
* `items_realize` — the items of a list, side by side;
* `completeLayers_realizes` — values of any type, if nested selections keep the invariant.
-/

namespace GraphQL

/-- The run of a place does what the tree says, up to the error that it leaves. -/
structure Realizes (run : Run Completed) (tree : CompletionTree) : Prop where
  yields : tree.IsSound → Yields run tree.completed tree.failures tree.calls
  breaks : ¬ tree.IsSound → run.Breaks

/-- The run of a place does what the tree says, and absorbs errors where the place may be null. -/
structure RealizesPlace (run : Run Completed) (place : Place CompletionTree) : Prop where
  yields : place.tree.IsSound → Yields run place.completed place.tree.failures place.calls
  breaks : ¬ place.tree.IsSound → run.Breaks

/-- Selections are executed as their trees are grown. -/
def SelectRealizes (select : Select) (grow : Grow) : Prop :=
  ∀ object selectionSets value path,
    Realizes (select object selectionSets value path) (grow object selectionSets value path)

namespace CompletionTree

/-- The list of some places. -/
theorem map_value_list (places : List (Place CompletionTree)) :
    (completedPlaces places).map Shape.list.value =
      (firstError (places.map Place.completed)).map Value.list := by
  have hplaces := map_completedPlaces Prod.snd places
  -- The values are taken as they are.
  have hcompleted : ∀ place : Place CompletionTree,
      (place.completed.map fun value => value) = place.completed := by
    intro place
    cases place.completed <;> rfl
  simp only [hcompleted] at hplaces
  rw [← hplaces]
  cases completedPlaces places <;> rfl

end CompletionTree

open CompletionTree

namespace Yields

variable {α β : Type}

/-- Two runs one after the other, the first of which leaves no error. -/
theorem seq {run : Run (Except GraphQLError α)}
    {next : Except GraphQLError α → Run (Except GraphQLError β)} {value : α}
    {result : Except GraphQLError β} {failures failures' : List GraphQLError}
    {calls calls' : List ResolverCall} (h : Yields run (.ok value) failures calls)
    (h' : Yields (next (.ok value)) result failures' calls') :
    Yields (run.bind next) result (failures ++ failures') (calls ++ calls') := by
  refine of_ends (h.ends.bind h'.ends) ?_ ?_ ?_
  · rw [List.filterMap_append]
    exact h.failed.append h'.failed
  · rw [List.filterMap_append, List.append_assoc]
    have hrecorded := h.recorded
    rw [leftBy, List.append_nil] at hrecorded
    exact hrecorded.append h'.recorded
  · rw [List.filterMap_append]
    exact h.called.append h'.called

/-- A call, and what happens quietly until it is settled, before a run. -/
theorem call_bind {γ : Type} {before : Run γ} {next : γ → Run (Except GraphQLError α)} {c : γ}
    {events : List Event} {result : Except GraphQLError α} {failures : List GraphQLError}
    {calls : List ResolverCall} (call : ResolverCall)
    (hbefore : before.Ends c (.called call.path call.parent call.arguments :: events))
    (hquiet : ∀ event ∈ events, event.Quiet) (h : Yields (next c) result failures calls) :
    Yields (before.bind next) result failures (call :: calls) := by
  -- What happens quietly adds neither failures nor errors, and the call is the first one of all.
  refine of_ends (hbefore.bind h.ends) ?_ ?_ ?_
  · rw [List.cons_append, List.filterMap_cons_none rfl, List.filterMap_append,
      filterMap_failure?_of_quiet hquiet]
    exact h.failed
  · rw [List.cons_append, List.filterMap_cons_none rfl, List.filterMap_append,
      filterMap_error?_of_quiet hquiet]
    exact h.recorded
  · have hcall : (Event.called call.path call.parent call.arguments).call? = some call := rfl
    rw [List.cons_append, List.filterMap_cons_some hcall, List.filterMap_append,
      filterMap_call?_of_quiet hquiet]
    exact h.called.cons call

end Yields

namespace Realizes

theorem leaf (value : Value) : Realizes (.finish [] (.ok value)) (.leaf value) where
  yields _ := .value value
  breaks h := absurd (.leaf value) h

theorem failed (error : GraphQLError) : Realizes (Completed.fail error) (.failed error) where
  yields _ := .fail error
  breaks h := absurd (.failed error) h

theorem failure (info : ResolveInfo) (path : QueryPath) (message : String) (code : ErrorCode) :
    Realizes (info.fail path message code) (CompletionTree.failure info path message code) :=
  failed _

theorem broken {run : Run Completed} (why : Abort) (h : run.Breaks) :
    Realizes run (.broken why) where
  yields hsound := absurd hsound (not_isSound_broken why)
  breaks _ := h

theorem quiet_bind {γ : Type} {before : Run γ} {next : γ → Run Completed} {c : γ}
    {events : List Event} {tree : CompletionTree} (hbefore : before.Ends c events)
    (hquiet : ∀ event ∈ events, event.Quiet) (h : Realizes (next c) tree) :
    Realizes (before.bind next) tree where
  yields hsound := (h.yields hsound).quiet_bind hbefore hquiet
  breaks hsound := hbefore.bind_breaks (h.breaks hsound)

/-- Callbacks that return only report texts, and those that panic break the execution down. -/
theorem call_bind {γ : Type} {call : Call γ} {next : γ → Run Completed} {tree : CompletionTree}
    (hreturned : ∀ log result, call = .returned log result → Realizes (next result) tree)
    (hpanicked : ∀ log message, call = .panicked log message →
      tree = .broken (.panicked message)) :
    Realizes ((call.toCoroutine .said).bind next) tree := by
  cases call with
  | returned log result =>
    refine quiet_bind (.finish _ _) (fun event hmem => ?_) (hreturned log result rfl)
    obtain ⟨text, _, rfl⟩ := List.mem_map.mp hmem
    exact Event.quiet_said text
  | panicked log message =>
    rw [hpanicked log message rfl]
    exact broken _ (.abort _ _)

/-- **The null check of a place that must not be null.** -/
theorem required {run : Run Completed} {tree : CompletionTree} (nonNull : Bool)
    (info : ResolveInfo) (path : QueryPath) (h : Realizes run tree) :
    Realizes (run.bind (Completion.requireValue nonNull info path))
      (tree.required nonNull info path) := by
  by_cases htree : tree = .leaf .null
  · subst htree
    -- The run ends with null, so the check decides what becomes of the place.
    have hrun : Yields run (.ok .null) [] [] := h.yields (.leaf _)
    cases nonNull with
    | true =>
      exact ⟨fun _ => hrun.seq (.fail _), fun hsound => absurd (.failed _) hsound⟩
    | false =>
      exact ⟨fun _ => hrun.seq (.value _), fun hsound => absurd (.leaf _) hsound⟩
  · rw [required_of_ne htree]
    refine ⟨fun hsound => ?_, fun hsound => (h.breaks hsound).bind _⟩
    -- Errors and other values pass the check as they are.
    have hne : tree.completed ≠ .ok .null := fun hnull =>
      htree (eq_leaf_null_of_completed hsound hnull)
    have hpass : Completion.requireValue nonNull info path tree.completed =
        .finish [] tree.completed := by
      cases hcompleted : tree.completed with
      | error error => rfl
      | ok value => cases value <;> first | rfl | exact absurd hcompleted hne
    refine (h.yields hsound).bind [] ?_ (.refl _)
    rw [hpass]
    exact .finish _ _

/-- The null check of a raw value that is null. -/
theorem requireNull (nonNull : Bool) (info : ResolveInfo) (path : QueryPath) :
    Realizes (Completion.requireValue nonNull info path (.ok .null))
      ((CompletionTree.leaf .null).required nonNull info path) := by
  cases nonNull with
  | true => exact failure ..
  | false => exact leaf .null

/-- A place that absorbs errors where it may be null. -/
theorem absorb {run : Run Completed} {tree : CompletionTree} (segment : PathSegment)
    (nonNull : Bool) (h : Realizes run tree) :
    RealizesPlace (run.bind (Completed.absorb nonNull)) ⟨segment, nonNull, none, tree⟩ where
  yields hsound := (h.yields hsound).absorb nonNull
  breaks hsound := (h.breaks hsound).bind _

end Realizes

/-- A place that is called for before its run. -/
theorem RealizesPlace.call_bind {γ : Type} {before : Run γ} {next : γ → Run Completed} {c : γ}
    {events : List Event} {segment : PathSegment} {nonNull : Bool} {tree : CompletionTree}
    (call : ResolverCall)
    (hbefore : before.Ends c (.called call.path call.parent call.arguments :: events))
    (hquiet : ∀ event ∈ events, event.Quiet)
    (h : RealizesPlace (next c) ⟨segment, nonNull, none, tree⟩) :
    RealizesPlace (before.bind next) ⟨segment, nonNull, some call, tree⟩ where
  yields hsound := (h.yields hsound).call_bind call hbefore hquiet
  breaks hsound := hbefore.bind_breaks (h.breaks hsound)

/-! ### Values -/

section Values

variable {ctx : ExecutionContext} {select : Select} {grow : Grow}
  (hselect : SelectRealizes select grow)

theorem completeScalar_realizes (scalar : ScalarType) (info : ResolveInfo) (path : QueryPath)
    (value : FieldValue) :
    Realizes (Completion.completeScalar scalar info path value)
      (ofScalar scalar info path value) := by
  rw [Completion.completeScalar, ofScalar]
  cases value.toValue? with
  | none => exact .failure ..
  | some constant =>
    cases hserialize : scalar.serialize constant with
    | error message => simp only [hserialize]; exact .failure ..
    | ok result => simp only [hserialize]; exact .leaf result

theorem completeEnum_realizes (type : EnumType) (info : ResolveInfo) (path : QueryPath)
    (value : FieldValue) :
    Realizes (Completion.completeEnum type info path value) (ofEnum type info path value) := by
  rw [Completion.completeEnum, ofEnum]
  cases value.toValue?.bind type.serialize? with
  | none => exact .failure ..
  | some name => exact .leaf _

include hselect

theorem completeObject_realizes (object : ObjectType) (info : ResolveInfo) (path : QueryPath)
    (value : FieldValue) :
    Realizes (Completion.completeObject select object info path value)
      (ofObject grow object info path value) := by
  have hselected := hselect object (info.fieldNodes.map FieldNode.selections) value path
  rw [Completion.completeObject, ofObject]
  cases object.isTypeOf with
  | none => exact .quiet_bind (.finish [] true) (by simp) hselected
  | some isTypeOf =>
    -- A predicate that panics breaks both the run and the tree down.
    refine .call_bind (fun log accepted hcall => ?_) (fun log message hcall => ?_)
    · simp only [hcall]
      cases accepted with
      | true => exact hselected
      | false => exact .failure ..
    · simp only [hcall]

theorem completeAbstract_realizes (abstractType : String) (info : ResolveInfo) (path : QueryPath)
    (value : FieldValue) :
    Realizes (Completion.completeAbstract ctx select abstractType info path value)
      (ofAbstract ctx grow abstractType info path value) := by
  rw [Completion.completeAbstract, ofAbstract]
  refine .call_bind (fun log name hcall => ?_) (fun log message hcall => ?_)
  · simp only [hcall]
    cases Completion.concreteType ctx.schema.types abstractType name with
    | error fault => exact .failure ..
    | ok object => exact completeObject_realizes hselect object info path value
  · simp only [hcall]

theorem completeNamed_realizes (typeName : String) (info : ResolveInfo) (path : QueryPath)
    (value : FieldValue) :
    Realizes (Completion.completeNamed ctx select typeName info path value)
      (ofNamed ctx grow typeName info path value) := by
  rw [Completion.completeNamed, ofNamed]
  -- A type name that the schema does not know is a failure, here as in the tree.
  cases ctx.schema.types.type? typeName with
  | none => exact .failure ..
  | some definition =>
    cases definition with
    | scalar scalar => exact completeScalar_realizes scalar info path value
    | object object => exact completeObject_realizes hselect object info path value
    | interface _ | union _ => exact completeAbstract_realizes hselect typeName info path value
    | enum type => exact completeEnum_realizes type info path value
    | inputObject _ => exact .failure ..

omit hselect in
/-- The items of a list are completed side by side, so their balances add up. -/
theorem items_realize {run : Nat → FieldValue → Run Completed}
    {tree : Nat → FieldValue → CompletionTree} (nonNull : Bool) (items : List FieldValue)
    (h : ∀ index item, Realizes (run index item) (tree index item)) :
    Realizes
      ((Coroutine.joinAll (items.mapIdx run)).bind (Completion.gatherItems nonNull))
      (.branch .list (items.mapIdx fun index item =>
        { segment := .index index
          nonNull := nonNull
          call := none
          tree := tree index item })) := by
  rw [List.mapIdx_eq_zipIdx_map, List.mapIdx_eq_zipIdx_map]
  refine ⟨fun hsound => ?_, fun hsound => ?_⟩
  · rw [isSound_branch_iff, List.forall_mem_map] at hsound
    have hgather := Yields.gatherItems nonNull fun i hi => (h i.2 i.1).yields (hsound i hi)
    rw [completed, map_value_list, failures, failuresAmong_eq_flatMap, calls,
      callsAmong_eq_flatMap, List.map_map, List.flatMap_map, List.flatMap_map]
    exact hgather
  · rw [isSound_branch_iff, List.forall_mem_map] at hsound
    push Not at hsound
    -- One item that breaks down is enough, whatever the other ones do.
    obtain ⟨i, hi, hbroken⟩ := hsound
    exact ((h i.2 i.1).breaks hbroken).joinAll (List.mem_map_of_mem hi) |>.bind _

/-- **Values of any type.** The induction is on the list wrappers of the type. -/
theorem completeLayers_realizes (typeName : String) (innerRequired : Bool) (info : ResolveInfo)
    (wrappers : List ListWrapping) (path : QueryPath) (value : FieldValue) :
    Realizes
      (Completion.completeLayers ctx select typeName innerRequired info wrappers path value)
      (ofLayers ctx grow typeName innerRequired info wrappers path value) := by
  induction wrappers generalizing path value with
  | nil =>
    rw [Completion.completeLayers, ofLayers]
    -- No list wrapper is left: a null is checked against the type inside, anything else is
    -- completed by it.
    by_cases hnull : value.isNull = true
    · rw [if_pos hnull, if_pos hnull]
      exact .requireNull innerRequired info path
    · rw [if_neg hnull, if_neg hnull]
      exact (completeNamed_realizes hselect typeName info path value).required _ info path
  | cons wrapper inner ih =>
    rw [Completion.completeLayers, ofLayers]
    -- The outermost list: a null is checked against its wrapper, anything else has to be a list of
    -- items.
    by_cases hnull : value.isNull = true
    · rw [if_pos hnull, if_pos hnull]
      exact .requireNull _ info path
    · rw [if_neg hnull, if_neg hnull]
      cases Completion.items? value with
      | none => exact .failure ..
      | some items => exact items_realize _ items fun index item => ih (path.index index) item

end Values

end GraphQL
