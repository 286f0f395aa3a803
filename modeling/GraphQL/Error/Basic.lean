import GraphQL.Error.Code
import GraphQL.Path

/-!
# Errors in responses

An error has a message and a code, and possibly places in the operation, a path into the response,
extensions and a hidden cause. Its JSON form holds exactly one `code` extension, the engine's own.
-/

namespace GraphQL

/-- A line and a column of the operation's text, both counted from one. -/
structure Location where
  line : Nat
  column : Nat
deriving DecidableEq, Repr

namespace Location

/-- Whether a place comes before another. -/
def before (a b : Location) : Bool :=
  a.line < b.line || (a.line == b.line && a.column < b.column)

/-- A place as JSON. -/
def toJson (l : Location) : Json :=
  .object [("line", Json.ofNat l.line), ("column", Json.ofNat l.column)]

end Location

/-- An error as it is reported to clients. -/
structure GraphQLError where
  message : String
  code : ErrorCode
  locations : List Location
  path : Option ErrorPath
  /-- Further members of the error, in the order in which they were attached. -/
  extensions : List (String × Json)
  /-- The text of the underlying error, kept from clients unless it is exposed. -/
  cause : Option String

namespace GraphQLError

/-- An error without any details. -/
def new (message : String) (code : ErrorCode) : GraphQLError := ⟨message, code, [], none, [], none⟩

/-- An error that says nothing about what failed. -/
def internalServerError : GraphQLError := new "Internal server error" .internalServerError

/-- Adds places in the operation. -/
def withLocations (error : GraphQLError) (locations : List Location) : GraphQLError :=
  { error with locations := error.locations ++ locations }

/-- Adds a place in the operation. -/
def withLocation (error : GraphQLError) (location : Location) : GraphQLError :=
  error.withLocations [location]

/-- Sets the path into the response. -/
def withPath (error : GraphQLError) (path : ErrorPath) : GraphQLError :=
  { error with path := some path }

/-- Adds extensions. -/
def withExtensions (error : GraphQLError) (extensions : List (String × Json)) : GraphQLError :=
  { error with extensions := error.extensions ++ extensions }

/-- Whether an extension of the given name is attached. -/
def hasExtension (error : GraphQLError) (name : String) : Bool :=
  error.extensions.any fun entry => entry.1 == name

/-- Copies the cause into the `cause` extension, unless there is one already. -/
def exposeCause (error : GraphQLError) : GraphQLError :=
  match error.cause with
  | some cause =>
      if error.hasExtension "cause" then error
      else error.withExtensions [("cause", .string cause)]
  | none => error

/-- Whether the error keeps the operation from being executed at all. -/
def isRequestFatal (error : GraphQLError) : Bool := error.code.isRequestFatal

/-- Whether two lists of extensions are equal, key by key and value by value. -/
def sameExtensions : List (String × Json) → List (String × Json) → Bool
  | [], [] => true
  | a :: as, b :: bs => a.1 == b.1 && a.2 == b.2 && sameExtensions as bs
  | _, _ => false

/-- Equality of everything that clients can be shown; the cause does not count. -/
def same (a b : GraphQLError) : Bool :=
  a.message == b.message && a.code == b.code && a.locations == b.locations && a.path == b.path &&
    sameExtensions a.extensions b.extensions

/-- The extensions as clients see them: no `code` but the engine's own, which comes last. -/
def visibleExtensions (error : GraphQLError) : List (String × Json) :=
  (error.extensions.filter fun entry => entry.1 != "code") ++ [("code", .string error.code.name)]

/-- The error as JSON. -/
def toJson (error : GraphQLError) : Json :=
  let locations :=
    if error.locations.isEmpty then []
    else [("locations", Json.array (error.locations.map Location.toJson))]
  let path := error.path.toList.map fun path => ("path", ErrorPath.toJson path)
  .object ([("message", .string error.message)] ++ locations ++ path ++
    [("extensions", .object error.visibleExtensions)])

end GraphQLError

end GraphQL
