import GraphQL.Coercion.Error
import GraphQL.Schema.TypeSystem

/-!
# Coercion of constant values

How a value that is already known, of a variable or a default, becomes a value of an input type:
scalars parse it, enum names turn into internal values, input objects get their defaults, and a
single value stands for a list of one.

The values of input object fields are coerced when their field is reached. `Deferred` is such a value:
it waits for the type and the place that it is coerced at.

A default may make an input object appear that was not in the value, with defaults of its own.
`Coercion.expandDefault` therefore counts how deep defaults may nest. When there are more levels than
fields with defaults, one of them occurs inside itself, and the expansion never ends.
-/

namespace GraphQL

/-- A value that waits for its type and its place. -/
abbrev Deferred := TypeRef → ValuePath → Coerced Value

namespace Coercion

/-- Puts a value into as many lists as the type has. -/
def wrapInLists (ty : TypeRef) (value : Value) : Value :=
  ty.wrapping.listWrappings.foldl (fun value _ => .list [value]) value

/-- Lets a scalar parse a value. -/
def coerceScalar (parse : Value → Except ScalarError Value) (scalar : ScalarType) (value : Value)
    (path : ValuePath) : Coerced Value :=
  match parse value with
  | .ok result => .ok result
  | .error error => .fault (.ofScalarError scalar.name value error) path

/-- The internal value of an enum name. -/
def coerceEnumName (type : EnumType) (name : String) (path : ValuePath) : Coerced Value :=
  match type.parse? name with
  | some value => .ok value
  | none => .fault (.unknownEnumValue type.name name) path

/-- The fault of an input object without a field that it needs. -/
def missingField (object : InputObjectType) (field : InputValueDefinition) (path : ValuePath) :
    Coerced (List (String × Value)) :=
  .fault (.missingRequiredField object.name field.name field.type) path

/-- Coerces the declared fields of an input object in order. A field is taken out of the given ones,
gets its default, or is left out; given fields that remain in the end are unknown. -/
def coerceFields (expand : Value → Deferred) (object : InputObjectType) (path : ValuePath) :
    List InputValueDefinition → Entries Deferred → Coerced (List (String × Value))
  | [], given =>
      match given with
      | [] => .ok []
      | (name, _) :: _ => .fault (.unknownInputField object.name name) path
  | field :: fields, given => do
      let found := Entries.get? given field.name
      match found.or (field.fallback.map expand) with
      | some value =>
          let value ← value field.type (.field field.name :: path)
          let rest := if found.isSome then Entries.swapErase given field.name else given
          return (field.name, value) :: (← coerceFields expand object path fields rest)
      | none =>
          if field.type.isNonNull then missingField object field path
          else coerceFields expand object path fields given

/-- Coerces a value that is neither null nor for a list type. The fields are those of the value, if it
is an object. -/
def coerceNamed (types : TypeSystem) (expand : Value → Deferred) (value : Value)
    (given : Option (Entries Deferred)) : Deferred := fun ty path =>
  match types.namedType? ty with
  | some (.scalar scalar) => coerceScalar scalar.parseValue scalar value path
  | some (.enum type) =>
      match value with
      | .enum name | .string name => coerceEnumName type name path
      | _ => .fault (.incorrectEnumValueType type.name value.kind) path
  | some (.inputObject object) =>
      match given with
      | some given =>
          (coerceFields expand object path (Entries.values object.fields.entries) given).map fun pairs =>
            .object (Entries.ofPairs pairs)
      | none => .fault (.missingObject object.name value.kind) path
  | _ => .fault (.notAnInputType ty.name) path

/-- Coerces a value that is neither null nor a list. For a list type it is an only item, unless it is
an item itself. -/
def coerceSingle (lenient : Bool) (kind : ValueKind) (named : Deferred) : Deferred :=
  fun ty path =>
    if ty.isList then
      if lenient then (named ty path).map (wrapInLists ty)
      else .fault (.missingList kind ty) path
    else named ty path

mutual

/-- Coerces a value. A lenient coercion takes a single value for a list of one. -/
def coerceValue (types : TypeSystem) (expand : Value → Deferred) (lenient : Bool) :
    Value → Deferred
  | .null, ty, path => if ty.isNonNull then .fault (.unexpectedNull ty) path else .ok .null
  | .list items, ty, path =>
      match ty.itemType? with
      | some item => (coerceItems types expand items item path 0).map .list
      | none => coerceNamed types expand (.list items) none ty path
  | .object entries, ty, path =>
      coerceSingle lenient .object
        (coerceNamed types expand (.object entries) (some (deferEntries types expand entries))) ty path
  | value, ty, path =>
      coerceSingle lenient value.kind (coerceNamed types expand value none) ty path

/-- Coerces the items of a list, which are counted from the given index. -/
def coerceItems (types : TypeSystem) (expand : Value → Deferred) :
    List Value → TypeRef → ValuePath → Nat → Coerced (List Value)
  | [], _, _, _ => .ok []
  | item :: rest, ty, path, index => do
      let value ← coerceValue types expand false item ty (.index index :: path)
      return value :: (← coerceItems types expand rest ty path (index + 1))

/-- The values of an object, to be coerced when their fields are reached. -/
def deferEntries (types : TypeSystem) (expand : Value → Deferred) :
    List (String × Value) → Entries Deferred
  | [] => []
  | (key, value) :: rest =>
      (key, coerceValue types expand true value) :: deferEntries types expand rest

end

/-- Coerces a value with defaults nested at most as deep as the given number. -/
def expandDefault (types : TypeSystem) : Nat → Value → Deferred
  | 0, _ => fun _ _ => .error .endless
  | depth + 1, value => coerceValue types (expandDefault types depth) true value

/-- The input object fields that have a default. -/
def defaultedFields (types : TypeSystem) : List InputValueDefinition :=
  types.types.flatMap fun entry =>
    match entry.2 with
    | .inputObject object => (Entries.values object.fields.entries).filter (·.fallback.isSome)
    | _ => []

/-- Coerces a constant value to a type. -/
def coerceConstant (types : TypeSystem) (value : Value) : Deferred :=
  expandDefault types ((defaultedFields types).length + 1) value

end Coercion

end GraphQL
