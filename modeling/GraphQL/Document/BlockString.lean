/-!
# Block strings

The value of a text between triple quotes: the common indentation and the blank lines at both ends
are removed, and the line ends become `\n`. Escapes are left as they are.
-/

namespace GraphQL.BlockString

/-- Whether a character indents. -/
def isIndent (c : Char) : Bool := c == ' ' || c == '\t'

/-- The lines of a text. A line ends at `\n`, at `\r` or at both together. -/
def lines : List Char → List (List Char)
  | [] => [[]]
  | '\r' :: '\n' :: rest => [] :: lines rest
  | '\r' :: rest => [] :: lines rest
  | '\n' :: rest => [] :: lines rest
  | c :: rest =>
      match lines rest with
      | first :: others => (c :: first) :: others
      | [] => [[c]]

/-- The number of indenting characters in front of a line, if there is anything behind them. -/
def indent? (line : List Char) : Option Nat :=
  if line.all isIndent then none else some (line.takeWhile isIndent).length

/-- The least indentation of the given lines; lines of blanks do not count. -/
def commonIndent (lines : List (List Char)) : Nat := ((lines.filterMap indent?).min?).getD 0

/-- Removes the indentation from a line that is long enough. -/
def dedent (indent : Nat) (line : List Char) : List Char :=
  if indent ≤ line.length then line.drop indent else line

/-- Drops blank lines at both ends. -/
def dropBlankEnds (lines : List (List Char)) : List (List Char) :=
  let blank := fun (line : List Char) => line.all isIndent
  ((lines.dropWhile blank).reverse.dropWhile blank).reverse

/-- The value of a block string with the given content. The first line keeps its indentation. -/
def value (content : List Char) : List Char :=
  let all := lines content
  let indent := commonIndent all.tail
  let dedented := match all with
    | first :: rest => first :: rest.map (dedent indent)
    | [] => []
  ['\n'].intercalate (dropBlankEnds dedented)

end GraphQL.BlockString
