import GraphQL.Coercion.Arguments
import GraphQL.Coercion.Variables
import GraphQL.Proofs.Coercion.RecurringDefaults
import GraphQL.Proofs.Schema.BuilderCalls

/-!
# Coercions that end

Where no default recurs, every coercion ends: of constants, of literals and of the arguments and
variables of a request. Literals have defaults only where they leave fields of input objects out, and
what such a default comes to is a matter of constants alone.

That constants end is the only thing to assume: the recursion over a literal or a list of
declarations is finite, and asks for constants where it meets a default or the value of a variable.
Conversely a default that recurs is one constant whose coercion has no end, so the assumption can be
stated about defaults alone.

* `ConstantsEnd` — the coercion of every constant ends;
* `coerceLiteral_ends`, `coerceArguments_ends`, `coerceVariables_ne_endless` — then all other coercions end;
* `coercion_ends_iff` — which is the case exactly if no default recurs;
* `recursive_default_never_ends` — a schema that a builder makes, with a default that does.
-/

namespace GraphQL

namespace Coercion

/-- The coercion of every constant ends. -/
def ConstantsEnd (types : TypeSystem) : Prop := ∀ value ty path, Ends (coerceConstant types value ty path)

variable {types : TypeSystem}

/-! ### Literals -/

section Literals

variable {vars : Variables}

theorem coerceVariable_ends (name : String) (ty : TypeRef) (path : ValuePath) :
    Ends (coerceVariable vars name ty path) := by
  rw [coerceVariable]
  split
  · split
    · exact .fault _ path
    · exact .ok _
  · exact .ok _

/-- The fields of an input object, if the literals that are given for them end. The induction is on the
fields. -/
theorem coerceLiteralFields_ends (hends : ConstantsEnd types) {object : InputObjectType}
    {path : ValuePath} {given : Entries DeferredLiteral}
    (hgiven : ∀ entry ∈ given, ∀ ty path, Ends (entry.2 ty path))
    (fields : List InputValueDefinition) : Ends (coerceLiteralFields types object path given fields) := by
  induction fields with
  | nil => exact .ok []
  | cons field rest ih =>
    rw [coerceLiteralFields]
    cases hfound : Entries.get? given field.name
    case' some literal => refine .bind (hgiven _ (Entries.get?_mem hfound) field.type _) fun value => ?_
    case' none => refine .bind (.ok none) fun value => ?_
    all_goals
      -- The field has the value that is written, its default, or none.
      beta_reduce
      split
      · exact .bind ih fun _ => .ok _
      · exact .bind (hends _ field.type _) fun _ => .bind ih fun _ => .ok _
      · split
        · exact .fault _ path
        · exact ih

theorem coerceLiteralNamed_ends (hends : ConstantsEnd types) (literal : Literal)
    {given : Option (Entries DeferredLiteral)}
    (hgiven : ∀ entries, given = some entries → ∀ entry ∈ entries, ∀ ty path, Ends (entry.2 ty path))
    (ty : TypeRef) (path : ValuePath) : Ends (coerceLiteralNamed types vars literal given ty path) := by
  -- Every kind of type ends at once, except that an input object goes on with its fields.
  rw [coerceLiteralNamed]
  split
  next scalar _ => exact .map (coerceScalar_ends _ scalar _ path) some
  next type _ =>
    split
    · exact .map (coerceEnumName_ends type _ path) some
    · exact .fault _ path
  next object _ =>
    cases given with
    | none => exact .fault _ path
    | some entries =>
      refine .map ?_ some
      rw [coerceLiteralObject]
      split
      · exact .fault _ path
      · exact .map (coerceLiteralFields_ends hends (hgiven entries rfl) _) _
  next => exact .fault _ path

theorem coerceLiteralSingle_ends {named : DeferredLiteral} (hnamed : ∀ ty path, Ends (named ty path))
    (lenient : Bool) (kind : ValueKind) (ty : TypeRef) (path : ValuePath) :
    Ends (coerceLiteralSingle lenient kind named ty path) := by
  rw [coerceLiteralSingle]
  split
  · split
    · exact .map (hnamed ty path) _
    · exact .fault _ path
  · exact hnamed ty path

/-- Literals that are neither null, variables nor composite. -/
theorem coerceLeafLiteral_ends (hends : ConstantsEnd types) (literal : Literal) (lenient : Bool)
    (ty : TypeRef) (path : ValuePath) : Ends (coerceLiteralSingle lenient literal.kind
      (coerceLiteralNamed types vars literal none) ty path) :=
  coerceLiteralSingle_ends
    (coerceLiteralNamed_ends hends literal fun _ hsome => absurd hsome (by simp)) _ _ ty path

mutual

/-- **The coercion of every literal ends.** The recursion is that of the literal. -/
theorem coerceLiteral_ends (hends : ConstantsEnd types) :
    ∀ (literal : Literal) (lenient : Bool) (ty : TypeRef) (path : ValuePath),
      Ends (coerceLiteral types vars lenient literal ty path)
  | .var name, lenient, ty, path => coerceVariable_ends name ty path
  | .null, lenient, ty, path => by
    rw [coerceLiteral]
    split
    · exact .fault _ path
    · exact .ok _
  | .list items, lenient, ty, path => by
    rw [coerceLiteral]
    split
    · exact .map (coerceLiteralItems_ends hends items _ path 0) _
    · exact coerceLiteralNamed_ends hends (.list items) (fun _ hsome => absurd hsome (by simp)) ty path
  | .object entries, lenient, ty, path => by
    -- The entries of an object literal are coerced when the types of their fields are known.
    rw [coerceLiteral]
    refine coerceLiteralSingle_ends (coerceLiteralNamed_ends hends (.object entries) ?_) _ _ ty path
    exact fun _ hsome => Option.some.inj hsome ▸ deferLiterals_end hends entries
  | .bool value, lenient, ty, path => coerceLeafLiteral_ends hends (.bool value) lenient ty path
  | .number value, lenient, ty, path => coerceLeafLiteral_ends hends (.number value) lenient ty path
  | .string value, lenient, ty, path => coerceLeafLiteral_ends hends (.string value) lenient ty path
  | .enum name, lenient, ty, path => coerceLeafLiteral_ends hends (.enum name) lenient ty path

theorem coerceLiteralItems_ends (hends : ConstantsEnd types) :
    ∀ (items : List Literal) (ty : TypeRef) (path : ValuePath) (index : Nat),
      Ends (coerceLiteralItems types vars items ty path index)
  | [], _, _, _ => .ok []
  | item :: rest, ty, path, index => by
    rw [coerceLiteralItems]
    refine .bind (coerceLiteral_ends hends item false ty _) fun value => ?_
    have hrest := coerceLiteralItems_ends hends rest ty path (index + 1)
    split
    · exact .bind (.ok _) fun _ => .bind hrest fun _ => .ok _
    · split
      · exact .bind (.fault _ _) fun _ => .bind hrest fun _ => .ok _
      · exact .bind (.ok _) fun _ => .bind hrest fun _ => .ok _

theorem deferLiterals_end (hends : ConstantsEnd types) :
    ∀ (entries : List (String × Literal)), ∀ entry ∈ deferLiterals types vars entries,
      ∀ ty path, Ends (entry.2 ty path)
  | [], _, hmem => absurd hmem List.not_mem_nil
  | (key, literal) :: rest, entry, hmem => by
    rw [deferLiterals] at hmem
    rcases List.mem_cons.mp hmem with rfl | hmem
    · exact coerceLiteral_ends hends literal true
    · exact deferLiterals_end hends rest entry hmem

end

end Literals

/-! ### Arguments and variables -/

theorem coerceArgument_ends (hends : ConstantsEnd types) (node : Field) (vars : Variables)
    (definition : InputValueDefinition) : Ends (coerceArgument types node vars definition) := by
  rw [coerceArgument]
  -- Whether something is written or not, what follows is the same: the value, the default, or
  -- nothing.
  cases Argument.find? node.arguments definition.name
  case' some argument =>
    refine .bind (.mapError (coerceLiteral_ends hends argument.value true definition.type []) _)
      fun value => ?_
  case' none => refine .bind (.ok none) fun value => ?_
  all_goals
    beta_reduce
    split
    · exact .ok _
    · exact .bind (.mapError (hends _ definition.type []) _) fun _ => .ok _
    · split
      · exact .invalid _
      · exact .ok _

/-- **The coercion of all arguments of a field ends.** -/
theorem coerceArguments_ends (hends : ConstantsEnd types) (definition : FieldDefinition) (node : Field)
    (vars : Variables) : Ends (coerceArguments types definition node vars) := by
  -- The declared arguments are coerced one behind the other, each by itself.
  have hdeclared : ∀ declared, Ends (coerceDeclared types node vars declared) := by
    intro declared
    induction declared with
    | nil => exact .ok []
    | cons first rest ih =>
      rw [coerceDeclared]
      refine .bind (coerceArgument_ends hends node vars first) fun value => ?_
      split
      · exact .bind ih fun _ => .ok _
      · exact ih
  rw [coerceArguments]
  split
  · exact .invalid _
  · exact .map (hdeclared _) _

theorem coerceDeclaredVariable_ne_endless (hends : ConstantsEnd types) (definition : VariableDefinition)
    (raw : Option Value) : coerceDeclaredVariable types definition raw ≠ .error .endless := by
  -- Only a default is expanded, and it is a constant.
  rw [coerceDeclaredVariable]
  split
  · simp
  next ty _ =>
    dsimp only
    split
    · simp
    · split
      next value _ =>
        split
        · simp
        · simp
        next hendless => exact absurd hendless (hends value ty [])
      next => split <;> simp

/-- **The coercion of the variables of a request ends.** The induction is on the declarations. The
loop itself gets shorter with each of them, so it has an end wherever the coercion of each single
variable has one. -/
theorem coerceVariables_ne_endless (hends : ConstantsEnd types) (limit : Nat)
    (definitions : List VariableDefinition) (raw : Variables) :
    coerceVariables types limit definitions raw ≠ .error .endless := by
  -- The variables that are left are coerced with whatever has been gathered before them, so the
  -- induction is for any of these.
  have heach : ∀ raw coerced errors,
      coerceEachVariable types limit definitions raw coerced errors ≠ .error .endless := by
    induction definitions with
    | nil => simp [coerceEachVariable]
    | cons definition rest ih =>
      intro raw coerced errors
      rw [coerceEachVariable]
      split
      · simp
      · cases hvariable : coerceDeclaredVariable types definition (raw.get? definition.name) with
        | error abort =>
          intro h
          obtain rfl : abort = .endless := Except.error.inj h
          exact coerceDeclaredVariable_ne_endless hends definition _ hvariable
        | ok outcome =>
          cases outcome with
          | absent | value | failed => exact ih _ _ _
  rw [coerceVariables]
  cases h : coerceEachVariable types limit definitions raw .empty [] with
  | ok result => simp
  | error abort =>
    intro heq
    obtain rfl : abort = .endless := Except.error.inj heq
    exact heach _ _ _ h

/-! ### Which coercions end -/

/-- Constants end exactly if no default recurs. -/
theorem constantsEnd_iff : ConstantsEnd types ↔ ∀ field, ¬ Recurs types field := by
  constructor
  · intro hends field hrecurs
    obtain ⟨_, ⟨fallback, hfallback, hcomes⟩, hback⟩ := Relation.TransGen.head'_iff.mp hrecurs
    refine hends fallback field.type [] (coerceConstant_endless_iff.mpr ⟨_, field, hcomes, hback, hrecurs⟩)
  · intro hnone value ty path hendless
    obtain ⟨_, recurring, _, _, hrecurs⟩ := coerceConstant_endless_iff.mp hendless
    exact hnone recurring hrecurs

end Coercion

open Coercion

/-- **Coercions end exactly if no default comes to itself.** Coercion is the recursion that follows both
the value and the defaults, without a limit. A constant has no end exactly if it comes to a default that
recurs; and constants, literals, arguments and variables all end exactly if there is no such default. -/
theorem coercion_ends_iff (types : TypeSystem) :
    (∀ value ty path, coerceConstant types value ty path =
      coerceValue types (coerceConstant types) true value ty path) ∧
    (∀ value ty path, coerceConstant types value ty path = .error .endless ↔
      ComesToRecurring types value ty) ∧
    ((∀ field, ¬ Recurs types field) ↔
      (∀ value ty path, coerceConstant types value ty path ≠ .error .endless) ∧
      (∀ vars lenient literal ty path,
        coerceLiteral types vars lenient literal ty path ≠ .error .endless) ∧
      (∀ definition node vars, coerceArguments types definition node vars ≠ .error .endless) ∧
      ∀ limit definitions raw, coerceVariables types limit definitions raw ≠ .error .endless) := by
  refine ⟨coerceConstant_eq types, fun _ _ _ => coerceConstant_endless_iff, ?_⟩
  rw [← constantsEnd_iff]
  constructor
  · intro hends
    exact ⟨hends, fun vars lenient literal => coerceLiteral_ends hends literal lenient,
      coerceArguments_ends hends, coerceVariables_ne_endless hends⟩
  · exact And.left

namespace Sample

/-- An input object with a field of its own type, which is an empty object by default. -/
def nested : InputObjectType where
  name := "Nested"
  description := none
  fields := .ofList [⟨"inner", none, .named "Nested", some (.object [])⟩]

/-- A field with a nested argument. -/
def nestedQuery : ObjectType where
  name := "Query"
  description := none
  fields := .ofList [⟨"depth", none, .named "Int", .ofList [⟨"of", none, .named "Nested", none⟩]⟩]
  interfaces := []
  isTypeOf := none

/-- Calls for a schema with both. -/
def nestedCalls : List BuilderCall :=
  [.register ⟨.object nestedQuery, .none⟩, .register ⟨.inputObject nested, .none⟩]

/-- A variable for the argument. -/
def nestedVariable : VariableDefinition := ⟨"of", .named "Nested" true, [], none, ⟨1, 1⟩⟩

end Sample

/-- **A schema that a builder makes, in which coercion does not end**: the default of a field comes to
itself, and neither with any number of levels nor as the value of a variable does an empty object have a
result. -/
theorem recursive_default_never_ends :
    ∃ schema, (SchemaBuilder.ofCalls "Query" none none Sample.nestedCalls).finish = .ok schema ∧
      (∀ levels path, expandDefault schema.types levels (.object []) (.named "Nested") path =
        .error .endless) ∧
      coerceConstant schema.types (.object []) (.named "Nested") [] = .error .endless ∧
      coerceVariables schema.types 10 [Sample.nestedVariable]
        (Variables.empty.insert "of" (.object [])) = .error .endless := by
  refine ⟨_, rfl, ?_, ?_, ?_⟩
  · intro levels
    induction levels with
    | zero => exact fun _ => rfl
    | succ levels ih =>
      intro path
      -- The only field is absent, so its default is next, one level further down.
      have hdefault := ih (.field "inner" :: path)
      rw [expandDefault, coerceValue, coerceSingle, if_neg (by decide), coerceNamed]
      refine CoercionFailure.map_eq_endless.mpr (CoercionFailure.bind_eq_endless.mpr (.inl ?_))
      exact hdefault
  · rfl
  · rfl

end GraphQL
