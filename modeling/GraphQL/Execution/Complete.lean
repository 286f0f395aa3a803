import GraphQL.Execution.Collect
import GraphQL.Execution.Event

/-!
# Completing values

A raw value is completed against the type of its field: lists item by item, scalars and enums by
their serializers, objects by executing the selections of the field on them. `Select` stands for
that last step.

A place that must not be null fails when its value is null, and leaves its error to the nearest
place around it that may be null.
-/

namespace GraphQL

/-- Executes selection sets on an object of a type at a place in the response. -/
abbrev Select := ObjectType → List (List Selection) → FieldValue → QueryPath → Run Completed

namespace ResolveInfo

/-- The field as `Type.field`. -/
def fieldLabel (info : ResolveInfo) : String := info.parentType.name ++ "." ++ info.fieldName

/-- An error at a place of the field. -/
def located (info : ResolveInfo) (path : QueryPath) (error : GraphQLError) : GraphQLError :=
  (error.withLocations (info.fieldNodes.map FieldNode.location)).withPath path.toErrorPath

/-- The failure of a place of the field. -/
def fail (info : ResolveInfo) (path : QueryPath) (message : String) (code : ErrorCode) :
    Run Completed :=
  Completed.fail (info.located path (.new message code))

end ResolveInfo

namespace Completion

/-- Makes null a failure of a place that must not be null. -/
def requireValue (nonNull : Bool) (info : ResolveInfo) (path : QueryPath) :
    Completed → Run Completed
  | .ok .null =>
      if nonNull then
        info.fail path s!"Cannot return null for non-nullable field {info.fieldLabel}."
          .valueCompletionError
      else .finish [] (.ok .null)
  | result => .finish [] result

/-- Completes a scalar. -/
def completeScalar (scalar : ScalarType) (info : ResolveInfo) (path : QueryPath)
    (value : FieldValue) : Run Completed :=
  let serialized := match value.toValue? with
    | some constant => scalar.serialize constant
    | none => .error s!"{scalar.name} cannot represent an object value: {value}"
  match serialized with
  | .ok result => .finish [] (.ok result)
  | .error message => info.fail path message .valueCompletionError

/-- Completes an enum value. -/
def completeEnum (type : EnumType) (info : ResolveInfo) (path : QueryPath) (value : FieldValue) :
    Run Completed :=
  match value.toValue?.bind type.serialize? with
  | some name => .finish [] (.ok (.enum name))
  | none =>
      info.fail path s!"Enum \"{type.name}\" cannot represent value: {value}" .valueCompletionError

/-- Completes an object, if its type accepts the value. -/
def completeObject (select : Select) (object : ObjectType) (info : ResolveInfo) (path : QueryPath)
    (value : FieldValue) : Run Completed :=
  let accepted : Run Bool := match object.isTypeOf with
    | some isTypeOf => (isTypeOf value).toCoroutine .said
    | none => .finish [] true
  accepted.bind fun accepted =>
    if accepted then select object (info.fieldNodes.map FieldNode.selections) value path
    else
      info.fail path s!"Expected value of type \"{object.name}\" but got: {value}."
        .valueCompletionError

/-- Why a value of an interface or union type is of no object type. -/
inductive AbstractFault where
  /-- No object type is named. -/
  | unresolved
  /-- The name is not that of an object type. -/
  | unknownType (name : String)
  /-- The interface or union does not stand for the object type. -/
  | impossibleType (name : String)
deriving DecidableEq, Repr

/-- The message of a fault. -/
def AbstractFault.message (abstractType : String) (info : ResolveInfo) : AbstractFault → String
  | .unresolved =>
      s!"Abstract type \"{abstractType}\" must resolve to an Object type at runtime for field \"{info.fieldLabel}\". Either the \"{abstractType}\" type should provide a \"resolveType\" function or each possible type should provide an \"isTypeOf\" function."
  | .unknownType name =>
      s!"Abstract type \"{abstractType}\" was resolved to a type \"{name}\" that does not exist inside the schema."
  | .impossibleType name =>
      s!"Runtime Object type \"{name}\" is not a possible type for \"{abstractType}\"."

/-- The object type of the given name, if an interface or union stands for it. -/
def concreteType (types : TypeSystem) (abstractType : String) :
    Option String → Except AbstractFault ObjectType
  | none => .error .unresolved
  | some name =>
      match types.object? name with
      | none => .error (.unknownType name)
      | some object =>
          if types.isPossibleType abstractType object.name then .ok object
          else .error (.impossibleType name)

/-- Completes a value of an interface or union type as an object of the type that it resolves to. -/
def completeAbstract (ctx : ExecutionContext) (select : Select) (abstractType : String)
    (info : ResolveInfo) (path : QueryPath) (value : FieldValue) : Run Completed :=
  let resolveType := (ctx.schema.typeHooks abstractType).resolveType.getD ctx.typeResolver
  ((resolveType value info abstractType).toCoroutine .said).bind fun name =>
    match concreteType ctx.schema.types abstractType name with
    | .ok object => completeObject select object info path value
    | .error fault => info.fail path (fault.message abstractType info) .typeResolutionError

/-- Completes a value that is not null against a type without wrappers. -/
def completeNamed (ctx : ExecutionContext) (select : Select) (typeName : String) (info : ResolveInfo)
    (path : QueryPath) (value : FieldValue) : Run Completed :=
  match ctx.schema.types.type? typeName with
  | some (.scalar scalar) => completeScalar scalar info path value
  | some (.enum type) => completeEnum type info path value
  | some (.object object) => completeObject select object info path value
  | some (.interface _) | some (.union _) => completeAbstract ctx select typeName info path value
  | some (.inputObject _) | none =>
      info.fail path
        s!"Field {info.fieldLabel} has a type {typeName} which cannot be used as an output type."
        .internalServerError

/-- The items of a raw value that is a list. -/
def items? (value : FieldValue) : Option (List FieldValue) :=
  match value.untyped with
  | .list items => some items
  | .plain (.list items) => some (items.map .plain)
  | _ => none

/-- Whether null is excluded, given the lists from the outermost one on and whether the named type is
required. -/
def excludesNull (innerRequired : Bool) : List ListWrapping → Bool
  | [] => innerRequired
  | wrapper :: _ => wrapper == .required

/-- Gathers completed items. Where items may be null, all their errors are recorded. -/
def gatherItems (nonNull : Bool) (results : List Completed) : Run Completed :=
  if nonNull then (gather results).map (Except.map .list)
  else
    .finish ((errorsOf results).map .recorded) (.ok (.list (results.map Completed.valueOrNull)))

/-- Completes a value against a type, given as its lists from the outermost one on. -/
def completeLayers (ctx : ExecutionContext) (select : Select) (typeName : String)
    (innerRequired : Bool) (info : ResolveInfo) :
    List ListWrapping → QueryPath → FieldValue → Run Completed
  | [], path, value =>
      if value.isNull then requireValue innerRequired info path (.ok .null)
      else (completeNamed ctx select typeName info path value).bind (requireValue innerRequired info path)
  | wrapper :: inner, path, value =>
      let nonNull := wrapper == .required
      if value.isNull then requireValue nonNull info path (.ok .null)
      else
        match items? value with
        | some items =>
            (Coroutine.joinAll (items.mapIdx fun index item =>
              completeLayers ctx select typeName innerRequired info inner (path.index index) item)).bind
              (gatherItems (excludesNull innerRequired inner))
        | none =>
            info.fail path
              s!"Expected Iterable, but did not find one for field \"{info.fieldLabel}\"."
              .valueCompletionError

/-- Completes the raw value of a field. -/
def completeValue (ctx : ExecutionContext) (select : Select) (info : ResolveInfo)
    (value : FieldValue) : Run Completed :=
  let layers := info.returnType.wrapping.layers
  completeLayers ctx select info.returnType.name layers.innerRequired info layers.lists.reverse
    info.path value

end Completion

end GraphQL
