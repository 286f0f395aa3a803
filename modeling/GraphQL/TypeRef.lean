import GraphQL.Text.Blank
import GraphQL.Wrapping

/-!
# References to types

A type reference is the name of a type inside its list and non-null wrappers, such as `[Int!]!`.
`TypeRef.parse` reads the text of one, with white space allowed around every token;
`TypeRef.display` writes it without any.
-/

namespace GraphQL

/-- A named type with its wrappers. -/
structure TypeRef where
  name : String
  wrapping : Wrapping
deriving DecidableEq, Repr

/-- A type as it is written in a document: a name or a list, each of them required or not. -/
inductive TypeSyntax where
  | named (name : String) (required : Bool)
  | list (item : TypeSyntax) (required : Bool)
deriving DecidableEq, Repr

/-- Why a text is no type reference. -/
inductive TypeTextError where
  /-- The text is not a type. -/
  | malformed
  /-- The type has more lists than a wrapping has room for. -/
  | tooManyLists
deriving DecidableEq, Repr

namespace TypeRef

/-- The nullable type of the given name. -/
def named (name : String) : TypeRef := ⟨name, .nullable⟩

/-- The required type of the given name. -/
def namedNonNull (name : String) : TypeRef := ⟨name, .required⟩

/-- Whether a type name may start with the character. -/
def isNameStart (c : Char) : Bool := c.isAlpha || c == '_'

/-- Whether the characters are a type name: letters, digits and underscores, no digit in front. -/
def isName : List Char → Bool
  | [] => false
  | c :: rest => isNameStart c && rest.all fun d => isNameStart d || d.isDigit

/-- Puts a list, required or not, around a type. -/
def wrapList? (ty : TypeRef) (required : Bool) : Option TypeRef :=
  (ty.wrapping.pushList? (if required then .required else .nullable)).map (⟨ty.name, ·⟩)

/-- The reference that a written type stands for, unless it has too many lists. -/
def ofSyntax? : TypeSyntax → Option TypeRef
  | .named name required => some ⟨name, .ofRequired required⟩
  | .list item required => (ofSyntax? item).bind (·.wrapList? required)

/-- Splits a closing exclamation mark off, together with the white space before it. -/
def splitRequired (cs : List Char) : List Char × Bool :=
  if cs.getLast? = some '!' then (Text.trimEnd cs.dropLast, true) else (cs, false)

theorem length_splitRequired_le (cs : List Char) : (splitRequired cs).1.length ≤ cs.length := by
  unfold splitRequired
  split
  · exact Nat.le_trans (Text.length_trimEnd_le _) (by simp)
  · exact Nat.le_refl _

/-- Reads the characters of a type. -/
def ofChars (cs : List Char) : Except TypeTextError TypeRef :=
  match _h : splitRequired (Text.trim cs) with
  | ('[' :: rest, required) =>
      if rest.getLast? = some ']' then do
        let item ← ofChars rest.dropLast
        match item.wrapList? required with
        | some ty => .ok ty
        | none => .error .tooManyLists
      else .error .malformed
  | (name, required) =>
      if isName name then .ok ⟨String.ofList name, .ofRequired required⟩ else .error .malformed
termination_by cs.length
decreasing_by
  have h₁ := length_splitRequired_le (Text.trim cs)
  have h₂ := Text.length_trim_le cs
  simp only [_h, List.length_cons] at h₁
  simp only [List.length_dropLast]
  omega

/-- Reads the text of a type. -/
def parse (text : String) : Except TypeTextError TypeRef := ofChars text.toList

/-- Reads the text of a type; a text that is none stands for the type of that very name. -/
def ofText (text : String) : Except TypeTextError TypeRef :=
  match parse text with
  | .error .malformed => .ok (named text)
  | result => result

/-- Whether null is excluded. -/
def isNonNull (ty : TypeRef) : Bool := ty.wrapping.isRequired

/-- Whether this is a list type, required or not. -/
def isList (ty : TypeRef) : Bool := ty.wrapping.isList

/-- The type with null allowed. -/
def withoutNonNull (ty : TypeRef) : TypeRef := { ty with wrapping := ty.wrapping.withoutNonNull }

/-- The type of the items of a list type. -/
def itemType? (ty : TypeRef) : Option TypeRef := ty.wrapping.withoutList?.map (⟨ty.name, ·⟩)

/-- The named type, required exactly if it is required inside its lists. -/
def innermost (ty : TypeRef) : TypeRef := ⟨ty.name, .ofRequired ty.wrapping.innerIsRequired⟩

/-- The text of the type. -/
def display (ty : TypeRef) : String := ty.wrapping.display ty.name

instance : ToString TypeRef := ⟨display⟩

end TypeRef

end GraphQL
