import GraphQL.Proofs.Execution.RelatedRuns

/-!
# Completions that differ in their errors

The same raw value is completed by two executions, for a field that both of them describe in the same
way. If they have the same types, resolve the types of values alike and execute the selections on an
object alike, up to related errors, then they complete the value alike.

* `FieldsRelated` — what the two executions have in common about a field;
* `Completion.completeValue_related` — hence its value is completed alike.
-/

namespace GraphQL

variable {E : GraphQLError → GraphQLError → Prop} {ctx ctx' : ExecutionContext} {select select' : Select}
  {info info' : ResolveInfo}

/-- A field in one execution and in another one: both describe it in the same way and locate its errors
alike, have the same types, resolve the types of its values alike and execute its selections alike. -/
structure FieldsRelated (E : GraphQLError → GraphQLError → Prop) (ctx ctx' : ExecutionContext)
    (select select' : Select) (info info' : ResolveInfo) : Prop where
  label : info.fieldLabel = info'.fieldLabel
  returnType : info.returnType = info'.returnType
  path : info.path = info'.path
  located : ∀ path message code,
    E (info.located path (.new message code)) (info'.located path (.new message code))
  types : ctx.schema.types = ctx'.schema.types
  resolvesTypes : ∀ value typeName,
    ((ctx.schema.typeHooks typeName).resolveType.getD ctx.typeResolver) value info typeName =
      ((ctx'.schema.typeHooks typeName).resolveType.getD ctx'.typeResolver) value info' typeName
  selects : ∀ object value path,
    RunsRelated E (select object (info.fieldNodes.map FieldNode.selections) value path)
      (select' object (info'.fieldNodes.map FieldNode.selections) value path)

namespace Completion

variable (h : FieldsRelated E ctx ctx' select select' info info')
include h

theorem fail_related (path : QueryPath) (message : String) (code : ErrorCode) :
    RunsRelated E (info.fail path message code) (info'.fail path message code) :=
  Completed.fail_related (h.located path message code)

theorem requireValue_related (nonNull : Bool) (path : QueryPath) {result result' : Completed}
    (hresult : ExceptRel E Eq result result') :
    RunsRelated E (requireValue nonNull info path result) (requireValue nonNull info' path result') := by
  -- An error is passed on, and a null is reported with the label of the field, which is the same.
  cases hresult with
  | error h => exact .pure (.error h)
  | @ok value value' hvalue =>
    obtain rfl := hvalue
    unfold requireValue
    rw [h.label]
    split
    · split
      · exact fail_related h path _ _
      · exact .ok _
    · exact .ok value

theorem completeScalar_related (scalar : ScalarType) (path : QueryPath) (value : FieldValue) :
    RunsRelated E (completeScalar scalar info path value) (completeScalar scalar info' path value) := by
  simp only [completeScalar]
  split
  · exact .ok _
  · exact fail_related h path _ _

theorem completeEnum_related (type : EnumType) (path : QueryPath) (value : FieldValue) :
    RunsRelated E (completeEnum type info path value) (completeEnum type info' path value) := by
  unfold completeEnum
  split
  · exact .ok _
  · exact fail_related h path _ _

theorem completeObject_related (object : ObjectType) (path : QueryPath) (value : FieldValue) :
    RunsRelated E (completeObject select object info path value)
      (completeObject select' object info' path value) := by
  -- Whether the type accepts the value is asked in the same way.
  refine .bind_same .same _ fun accepted => ?_
  split
  · exact h.selects object value path
  · exact fail_related h path _ _

/-- The type of a value of an interface or union type is resolved in the same way. -/
theorem completeAbstract_related (typeName : String) (path : QueryPath) (value : FieldValue) :
    RunsRelated E (completeAbstract ctx select typeName info path value)
      (completeAbstract ctx' select' typeName info' path value) := by
  rw [completeAbstract, completeAbstract, ← h.types, ← h.resolvesTypes]
  -- Both are asked in the same way, and the answer names the same object type or none.
  refine .bind_same .same _ fun name => ?_
  cases concreteType ctx.schema.types typeName name with
  | ok object => exact completeObject_related h object path value
  | error fault =>
    -- What is wrong with the type is said of the field by its label.
    have hmessage : fault.message typeName info = fault.message typeName info' := by
      unfold AbstractFault.message
      rw [h.label]
    simp only [hmessage]
    exact fail_related h path _ _

/-- A value that is not null, against a type without wrappers. -/
theorem completeNamed_related (typeName : String) (path : QueryPath) (value : FieldValue) :
    RunsRelated E (completeNamed ctx select typeName info path value)
      (completeNamed ctx' select' typeName info' path value) := by
  -- Both schemas have the same types, so that the two values are completed to the same one.
  rw [completeNamed, completeNamed, ← h.types]
  cases ctx.schema.types.type? typeName with
  | none =>
    simp only [h.label]
    exact fail_related h path _ _
  | some definition =>
    cases definition with
    | scalar scalar => exact completeScalar_related h scalar path value
    | enum type => exact completeEnum_related h type path value
    | object object => exact completeObject_related h object path value
    | interface _ => exact completeAbstract_related h typeName path value
    | union _ => exact completeAbstract_related h typeName path value
    | inputObject _ =>
      simp only [h.label]
      exact fail_related h path _ _

omit h in
theorem gatherItems_related (nonNull : Bool) {results results' : List Completed}
    (h : List.Forall₂ (ExceptRel E Eq) results results') :
    RunsRelated E (gatherItems nonNull results) (gatherItems nonNull results') := by
  rw [gatherItems, gatherItems]
  split
  · exact (gather_related h).map _
  · rw [valueOrNull_eq h]
    exact .finish (recorded_related (errorsOf_related h)) (.ok rfl)

/-- A value against a type. The induction is on the list wrappers of the type. -/
theorem completeLayers_related (typeName : String) (innerRequired : Bool) (wrappers : List ListWrapping)
    (path : QueryPath) (value : FieldValue) :
    RunsRelated E (completeLayers ctx select typeName innerRequired info wrappers path value)
      (completeLayers ctx' select' typeName innerRequired info' wrappers path value) := by
  induction wrappers generalizing path value with
  | nil =>
    rw [completeLayers, completeLayers]
    split
    · exact requireValue_related h innerRequired path (.ok rfl)
    · exact (completeNamed_related h typeName path value).bind fun _ _ hresult =>
        requireValue_related h innerRequired path hresult
  | cons wrapper inner ih =>
    rw [completeLayers, completeLayers]
    split
    · exact requireValue_related h _ path (.ok rfl)
    · cases items? value with
      | none =>
        simp only [h.label]
        exact fail_related h path _ _
      | some items =>
        -- The items are completed side by side, each in lockstep with itself.
        refine (Coroutine.Lockstep.joinAll ?_).bind fun _ _ h => gatherItems_related _ h
        rw [List.mapIdx_eq_zipIdx_map, List.mapIdx_eq_zipIdx_map]
        exact List.forall₂_map_left_iff.mpr (List.forall₂_map_right_iff.mpr
          (List.forall₂_same.mpr fun entry _ => ih (path.index entry.2) entry.1))

/-- **The value of a field is completed alike**, up to related errors. -/
theorem completeValue_related (value : FieldValue) :
    RunsRelated E (completeValue ctx select info value) (completeValue ctx' select' info' value) := by
  rw [completeValue, completeValue, ← h.returnType, ← h.path]
  exact completeLayers_related h _ _ _ _ _

end Completion

end GraphQL
