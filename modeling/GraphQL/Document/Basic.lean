import GraphQL.Error.Basic
import GraphQL.TypeRef
import GraphQL.Value.Basic

/-!
# Query documents

The tree of a query document: operations and fragments with their selections. A selection set is the
list of its selections; a field without sub-selections has the empty list.
-/

namespace GraphQL

/-- A value written in a document. -/
inductive Literal where
  | null
  | bool (value : Bool)
  | number (value : Number)
  | string (value : String)
  | enum (name : String)
  | var (name : String)
  | list (items : List Literal)
  | object (entries : List (String × Literal))

instance : Inhabited Literal := ⟨.null⟩

namespace Literal

/-- The kind of a literal; a variable counts as null. -/
def kind : Literal → ValueKind
  | .null | .var _ => .null
  | .bool _ => .boolean
  | .number (.int _) => .integer
  | .number (.float _) => .float
  | .string _ => .string
  | .enum _ => .enum
  | .list _ => .list
  | .object _ => .object

mutual

/-- The constant value of a literal, given the values of its variables. -/
def toValue (lookup : String → Value) : Literal → Value
  | .null => .null
  | .bool b => .bool b
  | .number n => .number n
  | .string s => .string s
  | .enum name => .enum name
  | .var name => lookup name
  | .list items => .list (toValueItems lookup items)
  | .object entries => .object (toValueEntries lookup entries)

/-- `toValue` on every item. -/
def toValueItems (lookup : String → Value) : List Literal → List Value
  | [] => []
  | item :: rest => toValue lookup item :: toValueItems lookup rest

/-- `toValue` on every entry. -/
def toValueEntries (lookup : String → Value) : List (String × Literal) → List (String × Value)
  | [] => []
  | (key, value) :: rest => (key, toValue lookup value) :: toValueEntries lookup rest

end

end Literal

/-- An argument as it is written. -/
structure Argument where
  name : String
  nameLocation : Location
  value : Literal
  valueLocation : Location

namespace Argument

/-- The first argument of the given name. -/
def find? (arguments : List Argument) (name : String) : Option Argument :=
  arguments.find? fun argument => argument.name == name

end Argument

/-- A directive as it is written. -/
structure Directive where
  name : String
  arguments : List Argument

/-- A field as it is selected, over the type of selections. -/
structure FieldNode (selection : Type) where
  /-- The response key, where it differs from the name. -/
  label : Option String
  name : String
  arguments : List Argument
  directives : List Directive
  selections : List selection
  location : Location

/-- A selection of a field, of a named fragment or of an inline fragment. -/
inductive Selection where
  | field (node : FieldNode Selection)
  | spread (fragment : String) (directives : List Directive)
  | inline (condition : Option String) (directives : List Directive) (selections : List Selection)

/-- A selected field. -/
abbrev Field := FieldNode Selection

/-- The key of the field in the response. -/
def FieldNode.responseKey {selection : Type} (node : FieldNode selection) : String :=
  node.label.getD node.name

/-- The declaration of a variable. -/
structure VariableDefinition where
  name : String
  type : TypeSyntax
  directives : List Directive
  /-- The value of the variable when the request has none. -/
  fallback : Option Value
  location : Location

/-- The kind of an operation. -/
inductive OperationType where
  | query
  | mutation
  | subscription
deriving DecidableEq, Repr

/-- The keyword of an operation. -/
def OperationType.name : OperationType → String
  | .query => "query"
  | .mutation => "mutation"
  | .subscription => "subscription"

/-- An operation. -/
structure OperationDefinition where
  type : OperationType
  variableDefinitions : List VariableDefinition
  directives : List Directive
  selections : List Selection
  location : Location

/-- A named fragment. -/
structure FragmentDefinition where
  condition : String
  directives : List Directive
  selections : List Selection
  location : Location

/-- The operations of a document: a single one without a name, or any number of named ones. -/
inductive Operations where
  | anonymous (operation : OperationDefinition)
  | named (operations : Entries OperationDefinition)

/-- A query document. -/
structure Document where
  operations : Operations
  fragments : Entries FragmentDefinition

namespace Document

/-- The document without any definition. -/
def empty : Document := ⟨.named [], []⟩

end Document

end GraphQL
