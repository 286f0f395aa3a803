import GraphQL.Coercion.Constant
import GraphQL.Document.Basic
import GraphQL.Variables

/-!
# Coercion of literals

How a value written in an operation becomes a value of an input type. A variable stands for its
coerced value; one without a value makes its place absent, which is null inside a list. Enum values
have to be written as bare names here.
-/

namespace GraphQL

/-- A literal that waits for its type and its place. The result is absent if the literal is a variable
without a value. -/
abbrev DeferredLiteral := TypeRef → ValuePath → Coerced (Option Value)

namespace Coercion

/-- Coerces a variable to its value, which has the right type already. -/
def coerceVariable (vars : Variables) (name : String) : DeferredLiteral := fun ty path =>
  match vars.get? name with
  | some .null => if ty.isNonNull then .fault (.unexpectedNull ty) path else .ok (some .null)
  | value => .ok value

/-- Coerces the declared fields of an input object in order. -/
def coerceLiteralFields (types : TypeSystem) (object : InputObjectType) (path : ValuePath)
    (given : Entries DeferredLiteral) : List InputValueDefinition → Coerced (List (String × Value))
  | [] => .ok []
  | field :: fields => do
      let inner := .field field.name :: path
      let value ← match Entries.get? given field.name with
        | some literal => literal field.type inner
        | none => .ok none
      match value, field.fallback with
      | some value, _ =>
          return (field.name, value) :: (← coerceLiteralFields types object path given fields)
      | none, some fallback =>
          let value ← coerceConstant types fallback field.type inner
          return (field.name, value) :: (← coerceLiteralFields types object path given fields)
      | none, none =>
          if field.type.isNonNull then missingField object field path
          else coerceLiteralFields types object path given fields

/-- Coerces an object literal; fields that are not declared are looked for first. -/
def coerceLiteralObject (types : TypeSystem) (object : InputObjectType) (path : ValuePath)
    (given : Entries DeferredLiteral) : Coerced Value :=
  match (Entries.keys given).find? fun name => !Entries.contains object.fields.entries name with
  | some name => .fault (.unknownInputField object.name name) path
  | none =>
      (coerceLiteralFields types object path given (Entries.values object.fields.entries)).map
        fun pairs => .object (Entries.ofPairs pairs)

/-- Coerces a literal that is neither null nor a variable, and not for a list type. -/
def coerceLiteralNamed (types : TypeSystem) (vars : Variables) (literal : Literal)
    (given : Option (Entries DeferredLiteral)) : DeferredLiteral := fun ty path =>
  match types.namedType? ty with
  | some (.scalar scalar) =>
      let value := literal.toValue fun name => (vars.get? name).getD .null
      (coerceScalar scalar.parseLiteral scalar value path).map some
  | some (.enum type) =>
      match literal with
      | .enum name => (coerceEnumName type name path).map some
      | _ => .fault (.incorrectEnumValueType type.name literal.kind) path
  | some (.inputObject object) =>
      match given with
      | some given => (coerceLiteralObject types object path given).map some
      | none => .fault (.missingObject object.name literal.kind) path
  | _ => .fault (.notAnInputType ty.name) path

/-- Coerces a literal that is neither null, a variable nor a list. -/
def coerceLiteralSingle (lenient : Bool) (kind : ValueKind) (named : DeferredLiteral) :
    DeferredLiteral := fun ty path =>
  if ty.isList then
    if lenient then (named ty path).map (Option.map (wrapInLists ty))
    else .fault (.missingList kind ty) path
  else named ty path

mutual

/-- Coerces a literal. A lenient coercion takes a single value for a list of one. -/
def coerceLiteral (types : TypeSystem) (vars : Variables) (lenient : Bool) :
    Literal → DeferredLiteral
  | .var name, ty, path => coerceVariable vars name ty path
  | .null, ty, path => if ty.isNonNull then .fault (.unexpectedNull ty) path else .ok (some .null)
  | .list items, ty, path =>
      match ty.itemType? with
      | some item => (coerceLiteralItems types vars items item path 0).map fun items =>
          some (.list items)
      | none => coerceLiteralNamed types vars (.list items) none ty path
  | .object entries, ty, path =>
      coerceLiteralSingle lenient .object
        (coerceLiteralNamed types vars (.object entries)
          (some (deferLiterals types vars entries))) ty path
  | literal, ty, path =>
      coerceLiteralSingle lenient literal.kind
        (coerceLiteralNamed types vars literal none) ty path

/-- Coerces the items of a list, which are counted from the given index. An absent item is null. -/
def coerceLiteralItems (types : TypeSystem) (vars : Variables) :
    List Literal → TypeRef → ValuePath → Nat → Coerced (List Value)
  | [], _, _, _ => .ok []
  | item :: rest, ty, path, index => do
      let place := .index index :: path
      let value ← match ← coerceLiteral types vars false item ty place with
        | some value => .ok value
        | none => if ty.isNonNull then .fault (.unexpectedNull ty) place else .ok .null
      return value :: (← coerceLiteralItems types vars rest ty path (index + 1))

/-- The literals of an object, to be coerced when their fields are reached. -/
def deferLiterals (types : TypeSystem) (vars : Variables) :
    List (String × Literal) → Entries DeferredLiteral
  | [] => []
  | (key, literal) :: rest =>
      (key, coerceLiteral types vars true literal) :: deferLiterals types vars rest

end

end Coercion

end GraphQL
