import GraphQL.Error.Basic

/-!
# Reading with positions

A cursor is what is left of a text together with the line and the column of its first character.
`Parser` is a backtracking reader over it: an alternative that fails gives back the cursor it was
given. Faults that do not make a text ungrammatical are noted on the way; only the first one counts.
-/

namespace GraphQL

/-- A fault of a text that follows the grammar. -/
inductive Fault where
  /-- A number beyond the range of floats. -/
  | numberRange
  /-- Selection sets that are nested too deep. -/
  | depth
deriving DecidableEq, Repr

/-- The rest of a text, where it starts, and the first fault met so far. -/
structure Cursor where
  rest : List Char
  location : Location
  fault : Option Fault

namespace Cursor

/-- The beginning of a text. -/
def ofText (text : String) : Cursor := ⟨text.toList, ⟨1, 1⟩, none⟩

/-- Where the character after the given one is: a line feed starts a line, a carriage return goes
back to its first column, any other character takes one column. -/
def advance (l : Location) (c : Char) : Location :=
  if c = '\n' then ⟨l.line + 1, 1⟩ else if c = '\r' then ⟨l.line, 1⟩ else ⟨l.line, l.column + 1⟩

/-- Whether the character separates tokens. -/
def isBlank (c : Char) : Bool :=
  c == ' ' || c == ',' || c == '\t' || c == '\n' || c == '\r' || c.toNat == 0xFEFF

/-- Whether the character ends a line. -/
def isLineEnd (c : Char) : Bool := c == '\n' || c == '\r'

/-- Goes past the characters up to the first that does not satisfy the predicate. -/
def skipWhile (p : Char → Bool) : List Char → Location → List Char × Location
  | [], l => ([], l)
  | c :: rest, l => if p c then skipWhile p rest (advance l c) else (c :: rest, l)

/-- Goes past white space and comments, which run to the end of their line. -/
def skipIgnored (inComment : Bool) : List Char → Location → List Char × Location
  | [], l => ([], l)
  | c :: rest, l =>
      if isLineEnd c then skipIgnored false rest (advance l c)
      else if inComment || isBlank c then skipIgnored inComment rest (advance l c)
      else if c = '#' then skipIgnored true rest (advance l c)
      else (c :: rest, l)

end Cursor

/-- A backtracking reader. -/
abbrev Parser (α : Type) := StateT Cursor Option α

namespace Parser

/-- Goes past white space and comments. -/
def skip : Parser Unit := modify fun cursor =>
  let (rest, location) := Cursor.skipIgnored false cursor.rest cursor.location
  { cursor with rest, location }

/-- Where the cursor is. -/
def here : Parser Location := return (← get).location

/-- The next character. -/
def peek : Parser (Option Char) := return (← get).rest.head?

/-- Notes a fault, unless there is one already. -/
def note (fault : Fault) : Parser Unit := modify fun cursor =>
  { cursor with fault := cursor.fault.or (some fault) }

/-- Takes a character that satisfies the predicate. -/
def charIf (p : Char → Bool) : Parser Char := do
  let cursor ← get
  match cursor.rest with
  | c :: rest =>
      if p c then
        set { cursor with rest, location := Cursor.advance cursor.location c }
        return c
      else failure
  | [] => failure

/-- Takes the given character. -/
def char (c : Char) : Parser Unit := discard (charIf (· == c))

/-- Takes the given text. -/
def word (text : String) : Parser Unit := text.toList.forM char

/-- Takes the longest stretch of characters that satisfy the predicate. -/
def takeWhile (p : Char → Bool) : Parser (List Char) := do
  let cursor ← get
  let (rest, location) := Cursor.skipWhile p cursor.rest cursor.location
  set { cursor with rest, location }
  return cursor.rest.takeWhile p

/-- `takeWhile` of at least one character. -/
def takeWhile1 (p : Char → Bool) : Parser (List Char) := do
  let cs ← takeWhile p
  if cs.isEmpty then failure
  return cs

/-- Succeeds without taking anything if the parser would fail. -/
def notFollowedBy {α : Type} (p : Parser α) : Parser Unit := do
  match p.run (← get) with
  | some _ => failure
  | none => return ()

/-- Succeeds with `none` where the parser fails. -/
def optional {α : Type} (p : Parser α) : Parser (Option α) := some <$> p <|> pure none

/-- Repeats a parser, at most `fuel` times, skipping what is ignored before each repetition. -/
def repeatWithin {α : Type} (p : Parser α) : Nat → Parser (List α)
  | 0 => return []
  | fuel + 1 => do
      match ← optional (skip *> p) with
      | some a => return a :: (← repeatWithin p fuel)
      | none => return []

/-- Repeats a parser for as long as it succeeds. A repetition takes at least one character. -/
def many {α : Type} (p : Parser α) : Parser (List α) := do
  repeatWithin p (← get).rest.length

/-- Repeats a parser for as long as it succeeds, at least once. -/
def many1 {α : Type} (p : Parser α) : Parser (List α) := do
  let items ← many p
  if items.isEmpty then failure
  return items

end Parser

end GraphQL
