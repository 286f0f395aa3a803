import GraphQL.Json.Basic

/-!
# Paths into a response

A place in a response is reached by response keys and list indices. `ErrorPath` is such a path as an
error reports it; `QueryPath` also remembers, for every key, the object type it was selected on.
-/

namespace GraphQL

/-- One step into a response. -/
inductive PathSegment where
  | field (key : String)
  | index (index : Nat)
deriving DecidableEq, Repr

namespace PathSegment

/-- The text of a step. -/
def text : PathSegment → String
  | .field key => key
  | .index i => toString i

/-- A step as JSON. -/
def toJson : PathSegment → Json
  | .field key => .string key
  | .index i => Json.ofNat i

/-- Keys come before indices; keys are ordered by code points and indices by size. -/
def order : PathSegment → PathSegment → Ordering
  | .field a, .field b => compare a b
  | .field _, .index _ => .lt
  | .index _, .field _ => .gt
  | .index a, .index b => compare a b

end PathSegment

/-- A path as an error reports it, from the root down. -/
abbrev ErrorPath := List PathSegment

namespace ErrorPath

/-- The steps with dots between them. -/
def text (path : ErrorPath) : String := ".".intercalate (path.map PathSegment.text)

/-- The path as a JSON array. -/
def toJson (path : ErrorPath) : Json := .array (path.map PathSegment.toJson)

/-- Paths are ordered step by step, and a path comes before its extensions. -/
def order : ErrorPath → ErrorPath → Ordering
  | [], [] => .eq
  | [], _ :: _ => .lt
  | _ :: _, [] => .gt
  | a :: as, b :: bs => (PathSegment.order a b).then (order as bs)

end ErrorPath

/-- A step into a response, with the object type that a key was selected on. -/
structure PathNode where
  segment : PathSegment
  typeName : Option String
deriving DecidableEq, Repr

/-- A place in the response under construction; the innermost step comes first. -/
structure QueryPath where
  nodes : List PathNode
deriving DecidableEq, Repr

namespace QueryPath

/-- The root of the response. -/
def empty : QueryPath := ⟨[]⟩

/-- One step further down. -/
def child (path : QueryPath) (segment : PathSegment) (typeName : Option String) : QueryPath :=
  ⟨⟨segment, typeName⟩ :: path.nodes⟩

/-- The place of a field of an object of the given type. -/
def field (path : QueryPath) (key typeName : String) : QueryPath :=
  path.child (.field key) (some typeName)

/-- The place of an item of a list. -/
def index (path : QueryPath) (i : Nat) : QueryPath := path.child (.index i) none

/-- Whether this is the root. -/
def isEmpty (path : QueryPath) : Bool := path.nodes.isEmpty

/-- The innermost step. -/
def last? (path : QueryPath) : Option PathSegment := path.nodes.head?.map PathNode.segment

/-- The object type of the innermost step. -/
def typeName? (path : QueryPath) : Option String := path.nodes.head?.bind PathNode.typeName

/-- The steps from the root down. -/
def segments (path : QueryPath) : List PathSegment := (path.nodes.map PathNode.segment).reverse

/-- The path as an error reports it. -/
def toErrorPath (path : QueryPath) : ErrorPath := path.segments

/-- The steps with dots between them. -/
def text (path : QueryPath) : String := path.toErrorPath.text

instance : ToString QueryPath := ⟨text⟩

@[simp] theorem segments_empty : empty.segments = [] := rfl

@[simp] theorem segments_child (path : QueryPath) (segment : PathSegment)
    (typeName : Option String) :
    (path.child segment typeName).segments = path.segments ++ [segment] := by
  simp [segments, child]

end QueryPath

end GraphQL
