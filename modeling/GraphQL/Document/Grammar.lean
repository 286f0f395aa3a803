import GraphQL.Document.Basic
import GraphQL.Document.BlockString
import GraphQL.Document.Cursor
import GraphQL.Json.Reader

/-!
# The grammar of query documents

One reader per rule of the grammar. Choices are ordered and a repetition takes as much as it can.
Keywords need no blank behind them: `queryA` starts a query named `A`, and `[trueish]` is a list of
`true` and `ish`. White space, commas and comments may stand between the parts of most rules, but
not inside a name, a number, a type or a string.
-/

namespace GraphQL

/-- The greatest depth of selection sets below the outermost one of a definition. -/
def maxSelectionDepth : Nat := 64

/-- A definition of a document, in the order of the text. -/
inductive Definition where
  | operation (name : Option String) (definition : OperationDefinition)
  | fragment (name : String) (definition : FragmentDefinition)

namespace Grammar

open GraphQL.Parser

/-- Whether a name may start with the character. -/
def isNameStart (c : Char) : Bool := c.isAlpha || c == '_'

/-- Whether a name may go on with the character. -/
def isNameChar (c : Char) : Bool := isNameStart c || c.isDigit

/-- A name. -/
def name : Parser String := do
  let first ← charIf isNameStart
  return String.ofList (first :: (← takeWhile isNameChar))

/-- The fraction of a number. -/
def fraction : Parser (List Char) := char '.' *> takeWhile1 Char.isDigit

/-- The exponent of a number. -/
def exponent : Parser Int := do
  let _ ← charIf fun c => c == 'e' || c == 'E'
  let sign ← Parser.optional (charIf fun c => c == '+' || c == '-')
  let n := ofDigits (← takeWhile1 Char.isDigit)
  return if sign = some '-' then -n else n

/-- The digits before the point: a zero alone, or digits that do not start with one. -/
def whole : Parser (List Char) := do
  let first ← charIf Char.isDigit
  if first = '0' then return ['0']
  return first :: (← takeWhile Char.isDigit)

/-- A number. -/
def number : Parser Number := do
  let sign ← Parser.optional (char '-')
  let literal : NumberLiteral :=
    ⟨sign.isSome, ← whole, ← Parser.optional fraction, ← Parser.optional exponent⟩
  notFollowedBy (charIf isNameStart)
  let n := Number.ofLiteral literal
  unless n.isFinite do note .numberRange
  return n

/-- A piece of a block string: triple quotes behind a backslash, which do not close it, or else any
character. -/
def blockPiece : Parser (List Char) :=
  (word "\\\"\"\"" *> pure ['\\', '"', '"', '"']) <|> (List.singleton <$> charIf fun _ => true)

/-- The rest of a block string up to its closing quotes. -/
def blockContent : Nat → Parser (List Char)
  | 0 => failure
  | fuel + 1 => do
      match ← Parser.optional (word "\"\"\"") with
      | some _ => return []
      | none =>
          let piece ← blockPiece
          return piece ++ (← blockContent fuel)

/-- A string between triple quotes. -/
def blockString : Parser String := do
  word "\"\"\""
  return String.ofList (BlockString.value (← blockContent ((← get).rest.length + 1)))

/-- A hexadecimal digit. -/
def hex : Parser Nat := do
  match hexValue? (← charIf fun _ => true) with
  | some n => return n
  | none => failure

/-- A character of a string: an escape, or any character but a quote or the end of a line. -/
def stringChar : Parser Char := do
  match ← charIf fun c => c != '"' && !Cursor.isLineEnd c with
  | '\\' =>
      match ← charIf fun _ => true with
      | 'u' =>
          let code := (((← hex) * 16 + (← hex)) * 16 + (← hex)) * 16 + (← hex)
          if 0xD800 ≤ code ∧ code < 0xE000 then failure
          return Char.ofNat code
      | e =>
          match Json.Reader.simpleEscape? e with
          | some c => return c
          | none => failure
  | c => return c

/-- The characters of a string up to its closing quote. -/
def stringContent : Nat → Parser (List Char)
  | 0 => failure
  | fuel + 1 => do
      match ← Parser.optional (char '"') with
      | some _ => return []
      | none =>
          let c ← stringChar
          return c :: (← stringContent fuel)

/-- A string between single quotes. -/
def quotedString : Parser String := do
  char '"'
  return String.ofList (← stringContent ((← get).rest.length + 1))

/-- A string. -/
def string : Parser String := blockString <|> quotedString

/-- A variable. -/
def variableName : Parser String := char '$' *> skip *> name

/-- A name, a colon and what follows them. -/
def labelled {α : Type} (p : Parser α) : Parser (String × α) := do
  let key ← name
  skip
  char ':'
  skip
  return (key, ← p)

/-- A value, nested at most `fuel` deep. Variables are allowed unless the value has to be constant. -/
def value (constant : Bool) : Nat → Parser Literal
  | 0 => failure
  | fuel + 1 =>
      (if constant then failure else Literal.var <$> variableName) <|>
      (Literal.number <$> number) <|>
      (Literal.string <$> string) <|>
      (word "true" *> pure (.bool true)) <|>
      (word "false" *> pure (.bool false)) <|>
      (word "null" *> pure .null) <|>
      (Literal.enum <$> name) <|>
      (do char '['
          let items ← many (value constant fuel)
          skip
          char ']'
          return .list items) <|>
      (do char '\x7b'
          let entries ← many (labelled (value constant fuel))
          skip
          char '\x7d'
          return .object (Entries.ofPairs entries))

/-- A value, however deep. -/
def anyValue (constant : Bool) : Parser Literal := do value constant ((← get).rest.length + 1)

/-- An argument. -/
def argument : Parser Argument := do
  let nameLocation ← here
  let (key, (valueLocation, value)) ← labelled (do
    let location ← here
    return (location, ← anyValue false))
  return ⟨key, nameLocation, value, valueLocation⟩

/-- The arguments of a field or a directive. -/
def arguments : Parser (List Argument) := do
  char '('
  let items ← many1 argument
  skip
  char ')'
  return items

/-- What a part that may be missing stands for where it is. -/
def orEmpty {α : Type} (p : Parser (List α)) : Parser (List α) :=
  return (← Parser.optional (skip *> p)).getD []

/-- A directive. -/
def directive : Parser Directive := do
  char '@'
  skip
  let key ← name
  return ⟨key, ← orEmpty arguments⟩

/-- The directives of a part that may have any. -/
def directives : Parser (List Directive) := many directive

/-- A type, nested at most `fuel` deep. -/
def type : Nat → Parser TypeSyntax
  | 0 => failure
  | fuel + 1 => do
      let bare : Bool → TypeSyntax ← (TypeSyntax.named <$> name) <|> (do
        char '['
        let item ← type fuel
        char ']'
        return TypeSyntax.list item)
      return bare (← Parser.optional (char '!')).isSome

/-- The declaration of a variable. -/
def variableDefinition : Parser VariableDefinition := do
  let location ← here
  let key ← variableName
  skip
  char ':'
  skip
  let ty ← type ((← get).rest.length + 1)
  let directives ← directives
  let fallback ← Parser.optional (skip *> char '=' *> skip *> anyValue true)
  return ⟨key, ty, directives, fallback.map (Literal.toValue fun _ => .null), location⟩

/-- The declarations of the variables of an operation. -/
def variableDefinitions : Parser (List VariableDefinition) := do
  char '('
  let items ← many variableDefinition
  skip
  char ')'
  return items

/-- A type condition: the keyword, white space without comments, and a type name. -/
def typeCondition : Parser String := do
  word "on"
  discard (takeWhile1 Cursor.isBlank)
  name

/-- The selections of a set, `depth` levels below the outermost one and nested at most `fuel` deep. -/
def selectionSet : Nat → Nat → Parser (List Selection)
  | 0, _ => failure
  | fuel + 1, depth => do
      char '\x7b'
      if maxSelectionDepth < depth then note .depth
      let inner := selectionSet fuel (depth + 1)
      let field : Parser Selection := do
        let location ← here
        let label ← Parser.optional (name <* skip <* char ':' <* skip)
        let key ← name
        let arguments ← orEmpty arguments
        let directives ← directives
        return .field ⟨label, key, arguments, directives, ← orEmpty inner, location⟩
      let inlineFragment : Parser Selection := do
        word "..."
        let condition ← Parser.optional (skip *> typeCondition)
        let directives ← directives
        skip
        return .inline condition directives (← inner)
      let spread : Parser Selection := do
        word "..."
        skip
        notFollowedBy typeCondition
        let key ← name
        return .spread key (← directives)
      let items ← many1 (field <|> inlineFragment <|> spread)
      skip
      char '\x7d'
      return items

/-- The outermost selection set of a definition. -/
def selections : Parser (List Selection) := do selectionSet ((← get).rest.length + 1) 0

/-- The keyword of an operation. -/
def operationType : Parser OperationType :=
  (word "query" *> pure .query) <|> (word "mutation" *> pure .mutation) <|>
    (word "subscription" *> pure .subscription)

/-- An operation. -/
def operation : Parser Definition := do
  let location ← here
  (do let type ← operationType
      let key ← Parser.optional (skip *> name)
      let declared ← orEmpty variableDefinitions
      let directives ← directives
      skip
      return .operation key ⟨type, declared, directives, ← selections, location⟩) <|>
    (do return .operation none ⟨.query, [], [], ← selections, location⟩)

/-- A named fragment. -/
def fragment : Parser Definition := do
  let location ← here
  word "fragment"
  skip
  let key ← name
  skip
  let condition ← typeCondition
  let directives ← directives
  skip
  return .fragment key ⟨condition, directives, ← selections, location⟩

/-- The definitions of a document. -/
def definitions : Parser (List Definition) := do
  let items ← many1 (operation <|> fragment)
  skip
  unless (← get).rest.isEmpty do failure
  return items

end Grammar

end GraphQL
