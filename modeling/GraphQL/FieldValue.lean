import GraphQL.Value.Text

/-!
# Values returned by resolvers

What a resolver returns for a field before it is completed against the field's type: a constant
value, a list of such values, a data source whose fields are looked up by name, or any of these with
the name of its object type attached.
-/

namespace GraphQL

/-- A raw value of a field. -/
inductive FieldValue where
  /-- A constant value. -/
  | plain (value : Value)
  /-- A list of raw values. -/
  | list (items : List FieldValue)
  /-- A data source: fields by name, and the object type it knows itself to be of. -/
  | source (typeName : Option String) (fields : List (String × FieldValue))
  /-- A raw value marked as being of an object type. -/
  | typed (value : FieldValue) (typeName : String)

instance : Inhabited FieldValue := ⟨.plain .null⟩

namespace FieldValue

/-- The absent value. -/
def null : FieldValue := .plain .null

/-- A float, or null if it is not finite. -/
def ofFloat (f : Float) : FieldValue :=
  if f.isFinite then .plain (.number (.float f)) else null

/-- The value without its type marker. -/
def untyped : FieldValue → FieldValue
  | .typed value _ => untyped value
  | value => value

/-- Marks a value with an object type, in place of any earlier marker. -/
def withType (value : FieldValue) (typeName : String) : FieldValue := .typed value.untyped typeName

/-- The object type that a value is marked with. -/
def typeMarker? : FieldValue → Option String
  | .typed _ typeName => some typeName
  | _ => none

/-- The constant value, if it is one. -/
def value? : FieldValue → Option Value
  | .plain value => some value
  | .typed value _ => value? value
  | _ => none

/-- Whether the value is null. -/
def isNull (value : FieldValue) : Bool :=
  match value.value? with
  | some .null => true
  | _ => false

/-- The text, if the value is a string. -/
def string? (value : FieldValue) : Option String :=
  match value.value? with
  | some (.string s) => some s
  | _ => none

/-- A field of the value: a key of an object or a field of a data source. -/
def field? (value : FieldValue) (name : String) : Option FieldValue :=
  match value.untyped with
  | .plain (.object entries) => (Entries.get? entries name).map .plain
  | .source _ fields => Entries.get? fields name
  | _ => none

mutual

/-- The constant value that a raw value without data sources amounts to. -/
def toValue? : FieldValue → Option Value
  | .plain value => some value
  | .list items => (toValues? items).map .list
  | .source _ _ => none
  | .typed value _ => toValue? value

/-- `toValue?` on every item. -/
def toValues? : List FieldValue → Option (List Value)
  | [] => some []
  | item :: rest =>
      match toValue? item, toValues? rest with
      | some value, some values => some (value :: values)
      | _, _ => none

end

mutual

/-- The text of a raw value in messages. -/
def text : FieldValue → String
  | .plain value => value.text
  | .list items => Value.listText (itemTexts items)
  | .source (some typeName) _ => typeName ++ " \x7b .. \x7d"
  | .source none _ => "\x7b .. \x7d"
  | .typed value typeName => typeName ++ "(" ++ text value ++ ")"

/-- The texts of items. -/
def itemTexts : List FieldValue → List String
  | [] => []
  | item :: rest => text item :: itemTexts rest

end

instance : ToString FieldValue := ⟨text⟩

end FieldValue

end GraphQL
