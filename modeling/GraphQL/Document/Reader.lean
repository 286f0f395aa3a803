import GraphQL.Document.Grammar

/-!
# Reading query documents

A text is a document if it follows the grammar, does not nest its selection sets too deep, and
defines its operations and fragments consistently: every name once, an operation without a name
alone, and at least one operation.
-/

namespace GraphQL

/-- Why a text is no document. -/
inductive DocumentError where
  /-- The text does not follow the grammar, or holds a number beyond the range of floats. -/
  | grammar
  | tooDeep
  | multipleOperations (anonymous other : Location)
  | operationDefinedTwice (name : String) (first second : Location)
  | fragmentDefinedTwice (name : String) (first second : Location)
  | noOperation
deriving DecidableEq, Repr

namespace DocumentError

/-- The message of an error. Where a text breaks the grammar is not told. -/
def message : DocumentError → String
  | .grammar => "<syntax error>"
  | .tooDeep => "recursion limit exceeded."
  | .multipleOperations _ _ => "document contains multiple operations"
  | .operationDefinedTwice name _ _ => "operation " ++ name ++ " is defined twice"
  | .fragmentDefinedTwice name _ _ => "fragment " ++ name ++ " is defined twice"
  | .noOperation => "document does not contain an operation"

/-- The places that an error points at. -/
def locations : DocumentError → List Location
  | .multipleOperations anonymous other => [anonymous, other]
  | .operationDefinedTwice _ first second | .fragmentDefinedTwice _ first second => [second, first]
  | .grammar | .tooDeep | .noOperation => []

end DocumentError

namespace Document

/-- The operations and fragments met so far. -/
structure Partial where
  operations : Option Operations
  fragments : Entries FragmentDefinition

namespace Partial

/-- Adds an operation without a name. -/
def addAnonymous (p : Partial) (operation : OperationDefinition) :
    Except DocumentError Partial :=
  match p.operations with
  | none => .ok { p with operations := some (.anonymous operation) }
  | some (.anonymous other) => .error (.multipleOperations operation.location other.location)
  | some (.named others) =>
      let other := (others.head?.map fun entry => entry.2.location).getD operation.location
      .error (.multipleOperations operation.location other)

/-- Adds a named operation. -/
def addNamed (p : Partial) (name : String) (operation : OperationDefinition) :
    Except DocumentError Partial :=
  match p.operations with
  | some (.anonymous other) => .error (.multipleOperations other.location operation.location)
  | some (.named others) =>
      match Entries.get? others name with
      | some first => .error (.operationDefinedTwice name first.location operation.location)
      | none => .ok { p with operations := some (.named (Entries.insert others name operation)) }
  | none => .ok { p with operations := some (.named [(name, operation)]) }

/-- Adds a fragment. -/
def addFragment (p : Partial) (name : String) (fragment : FragmentDefinition) :
    Except DocumentError Partial :=
  match Entries.get? p.fragments name with
  | some first => .error (.fragmentDefinedTwice name first.location fragment.location)
  | none => .ok { p with fragments := Entries.insert p.fragments name fragment }

/-- Adds a definition. -/
def add (p : Partial) : Definition → Except DocumentError Partial
  | .operation none operation => p.addAnonymous operation
  | .operation (some name) operation => p.addNamed name operation
  | .fragment name fragment => p.addFragment name fragment

end Partial

/-- The document with the given definitions. -/
def ofDefinitions (definitions : List Definition) : Except DocumentError Document := do
  let p ← definitions.foldlM Partial.add ⟨none, []⟩
  match p.operations with
  | some operations => return ⟨operations, p.fragments⟩
  | none => throw .noOperation

/-- Reads a document. -/
def parse (text : String) : Except DocumentError Document :=
  match Grammar.definitions.run (Cursor.ofText text) with
  | none => .error .grammar
  | some (definitions, cursor) =>
      match cursor.fault with
      | some .numberRange => .error .grammar
      | some .depth => .error .tooDeep
      | none => ofDefinitions definitions

end Document

end GraphQL
