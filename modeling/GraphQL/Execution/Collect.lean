import GraphQL.Execution.Context

/-!
# Collecting fields

The selections that apply to an object of a given type, merged under their response keys in document
order. Fragments whose type condition does not match are left out, and so are selections that `@skip`
or `@include` exclude. Every named fragment is entered at most once, so a collection ends also
when fragments spread each other in a circle.
-/

namespace GraphQL

/-- The selections of fields by response key, in document order. -/
abbrev FieldGroups := List (String × List Field)

/-- How far a collection has come: the groups so far and the fragments that have been met. -/
structure Collected where
  groups : FieldGroups
  visited : List String

namespace Collected

/-- Nothing collected yet. -/
def empty : Collected := ⟨[], []⟩

/-- Adds a field to the group of its response key. -/
def addField (collected : Collected) (field : Field) : Collected :=
  let known := (Entries.get? collected.groups field.responseKey).getD []
  { collected with groups := Entries.insert collected.groups field.responseKey (known ++ [field]) }

end Collected

namespace ExecutionContext

/-- The truth value of the first `if` argument of a directive, if it has one. -/
def condition? (vars : Variables) (directive : Directive) : Option Bool :=
  match (Argument.find? directive.arguments "if").map Argument.value with
  | some (.bool b) => some b
  | some (.var name) =>
      match vars.get? name with
      | some (.bool b) => some b
      | _ => none
  | _ => none

/-- Whether the directives let a selection take part. A condition that is no truth value is ignored. -/
def shouldInclude (vars : Variables) (directives : List Directive) : Bool :=
  directives.all fun directive =>
    match directive.name, condition? vars directive with
    | "skip", some true => false
    | "include", some false => false
    | _, _ => true

/-- Whether an object type satisfies a type condition: its own name, or that of an interface or union
that stands for it. -/
def conditionMatches (types : TypeSystem) (condition : String) (object : ObjectType) : Bool :=
  condition == object.name || types.isPossibleType condition object.name

mutual

/-- Collects selections; `enter` collects the selections of a named fragment. -/
def collectSelections (ctx : ExecutionContext) (object : ObjectType)
    (enter : FragmentDefinition → Collected → Collected) :
    List Selection → Collected → Collected
  | [], collected => collected
  | selection :: rest, collected =>
      collectSelections ctx object enter rest (collectSelection ctx object enter selection collected)

/-- Collects a selection. -/
def collectSelection (ctx : ExecutionContext) (object : ObjectType)
    (enter : FragmentDefinition → Collected → Collected) : Selection → Collected → Collected
  | .field node, collected =>
      if shouldInclude ctx.vars node.directives then collected.addField node else collected
  | .spread name directives, collected =>
      if !shouldInclude ctx.vars directives || collected.visited.contains name then collected
      else
        let met := { collected with visited := name :: collected.visited }
        match Entries.get? ctx.fragments name with
        | some fragment =>
            if conditionMatches ctx.schema.types fragment.condition object then enter fragment met
            else met
        | none => met
  | .inline condition directives selections, collected =>
      if shouldInclude ctx.vars directives &&
          condition.all (conditionMatches ctx.schema.types · object) then
        collectSelections ctx object enter selections collected
      else collected

end

/-- Collects selections, entering fragments at most as deep as the given number. -/
def collectWithin (ctx : ExecutionContext) (object : ObjectType) :
    Nat → List Selection → Collected → Collected
  | 0 => collectSelections ctx object fun _ collected => collected
  | depth + 1 => collectSelections ctx object fun fragment =>
      collectWithin ctx object depth fragment.selections

/-- The fields of the selection sets that apply to an object type. Each fragment is entered once, so
they nest no deeper than there are fragments. -/
def collectFields (ctx : ExecutionContext) (object : ObjectType)
    (selectionSets : List (List Selection)) : FieldGroups :=
  (selectionSets.foldl (fun collected selections =>
    collectWithin ctx object ctx.fragments.length selections collected) Collected.empty).groups

end ExecutionContext

end GraphQL
