import GraphQL.Coercion.Arguments
import GraphQL.Proofs.Coercion.ConformingArguments

/-!
# Coercion at input types

A coercion that is asked for an input type looks at input types only: those of items and of the fields of
input objects. Where all of these are input types, it never fails because a type is none.

The property is one of whole coercions, with a rule for each way to put them together, and it passes
from a type to its items and to the fields of its input object. Every schema that a builder makes is
closed in this sense, and the type of a variable is checked before its value.

* `Coerced.IsTyped` — a coercion has not failed because a type is no input type;
* `TypeSystem.InputsClosed` — the fields of input objects have input types;
* `coerceValue_isTyped`, `expandDefault_isTyped`, `coerceConstant_isTyped` — constants;
* `coerceLiteral_isTyped` — literals;
* `ArgumentFailure`, `argumentFailure_of_coerceArguments` — hence arguments fail for other reasons;
* `VariableFailure`, `variableFailure_of_coerceDeclaredVariable` — and so do variables.
-/

namespace GraphQL

/-- The coercion has not failed because a type is no input type. -/
def Coerced.IsTyped {α : Type} (result : Coerced α) : Prop :=
  ∀ name path, result ≠ .error (.invalid ⟨.notAnInputType name, path⟩)

namespace Coerced.IsTyped

variable {α β : Type}

theorem ok (value : α) : Coerced.IsTyped (.ok value) := fun _ _ h => nomatch h

theorem endless : Coerced.IsTyped (.error .endless : Coerced α) := fun _ _ h => nomatch h

theorem fault {fault : InputFault} (path : ValuePath)
    (h : ∀ name, fault ≠ .notAnInputType name) :
    Coerced.IsTyped (Coerced.fault fault path : Coerced α) := by
  intro name place heq
  have herror := CoercionFailure.invalid.inj (Except.error.inj heq)
  exact h name (congrArg InputValueError.fault herror)

/-- A sequence of two coercions. -/
theorem bind {first : Coerced α} {next : α → Coerced β} (h : first.IsTyped)
    (hnext : ∀ value, (next value).IsTyped) : Coerced.IsTyped (first >>= next) := by
  cases first with
  | error failure => exact fun name path heq => h name path (congrArg _ (Except.error.inj heq))
  | ok value => exact hnext value

theorem map {result : Coerced α} (f : α → β) (h : result.IsTyped) :
    Coerced.IsTyped (result.map f) := by
  cases result with
  | error failure => exact fun name path heq => h name path (congrArg _ (Except.error.inj heq))
  | ok value => exact ok (f value)

end Coerced.IsTyped

/-- The coercion does not fail because a type is no input type, if it is asked for one. -/
def Deferred.IsTyped (types : TypeSystem) (deferred : Deferred) : Prop :=
  ∀ ty path, types.namedTypeIs TypeDefinition.isInput ty = true → (deferred ty path).IsTyped

/-- The same of a literal that waits for its type. -/
def DeferredLiteral.IsTyped (types : TypeSystem) (literal : DeferredLiteral) : Prop :=
  ∀ ty path, types.namedTypeIs TypeDefinition.isInput ty = true → (literal ty path).IsTyped

/-- The fields of input objects have input types. -/
def TypeSystem.InputsClosed (types : TypeSystem) : Prop :=
  ∀ name object, types.type? name = some (.inputObject object) →
    ∀ field ∈ Entries.values object.fields.entries, types.namedTypeIs TypeDefinition.isInput field.type = true

/-- An item has the named type of its list. -/
theorem TypeRef.name_itemType? {ty item : TypeRef} (h : ty.itemType? = some item) :
    item.name = ty.name := by
  obtain ⟨wrapping, -, rfl⟩ := Option.map_eq_some_iff.mp h
  rfl

theorem TypeSystem.namedTypeIs_itemType? {types : TypeSystem} {p : TypeDefinition → Bool}
    {ty item : TypeRef} (h : ty.itemType? = some item) :
    types.namedTypeIs p item = types.namedTypeIs p ty := by
  rw [TypeSystem.namedTypeIs, TypeSystem.namedTypeIs, TypeSystem.namedType?, TypeSystem.namedType?,
    TypeRef.name_itemType? h]

theorem TypeSystem.namedTypeIs_iff {types : TypeSystem} {p : TypeDefinition → Bool} {ty : TypeRef} :
    types.namedTypeIs p ty = true ↔
      ∃ definition, types.namedType? ty = some definition ∧ p definition = true := by
  rw [TypeSystem.namedTypeIs, Option.any_eq_true]

namespace Coercion

variable {types : TypeSystem}

/-! ### Constants -/

theorem coerceScalar_isTyped (parse : Value → Except ScalarError Value) (scalar : ScalarType)
    (value : Value) (path : ValuePath) : Coerced.IsTyped (coerceScalar parse scalar value path) := by
  unfold coerceScalar
  cases parse value with
  | ok result => exact .ok result
  | error error =>
    cases error with
    | incorrectType | incorrectValue | custom => exact .fault path (by simp [InputFault.ofScalarError])

theorem coerceEnumName_isTyped (type : EnumType) (name : String) (path : ValuePath) :
    Coerced.IsTyped (coerceEnumName type name path) := by
  unfold coerceEnumName
  split
  · exact .ok _
  · exact .fault path (by simp)

section Constants

variable {expand : Value → Deferred} (hexpand : ∀ fallback, (expand fallback).IsTyped types)
include hexpand

/-- The declared fields of an input object are never at fault for their types. The induction is on
them; each field has an input type, so what is coerced against it is typed, and the faults of the
object itself are of another kind. -/
theorem coerceFields_isTyped {object : InputObjectType} {path : ValuePath}
    {fields : List InputValueDefinition} {given : Entries Deferred}
    (hfields : ∀ field ∈ fields, types.namedTypeIs TypeDefinition.isInput field.type = true)
    (hgiven : ∀ entry ∈ given, entry.2.IsTyped types) :
    Coerced.IsTyped (coerceFields expand object path fields given) := by
  induction fields generalizing given with
  | nil =>
    -- Fields that are not declared are at fault as such, and not for their type.
    cases given with
    | nil => exact .ok []
    | cons entry rest => exact .fault path (by simp)
  | cons field fields ih =>
    obtain ⟨hfield, hothers⟩ := List.forall_mem_cons.mp hfields
    rw [coerceFields]
    -- What decides about the field is its given value, its default, or that it has neither.
    cases hfound : Entries.get? given field.name with
    | some deferred =>
      have hdeferred := hgiven _ (Entries.get?_mem hfound)
      refine .bind (hdeferred field.type _ hfield) fun value => .bind ?_ fun entries => .ok _
      exact ih hothers fun entry hmem => hgiven entry (Entries.mem_of_mem_swapErase hmem)
    | none =>
      cases field.fallback with
      | some fallback =>
        refine .bind (hexpand fallback field.type _ hfield) fun value => .bind ?_ fun entries => .ok _
        exact ih hothers hgiven
      | none =>
        simp only [Option.map_none, Option.none_or]
        split
        · exact .fault path (by simp)
        · exact ih hothers hgiven

variable (htypes : types.InputsClosed)
include htypes

/-- Values of a named type. No type that is an input type is left over. -/
theorem coerceNamed_isTyped {value : Value} {given : Option (Entries Deferred)}
    (hgiven : ∀ entries, given = some entries → ∀ entry ∈ entries, entry.2.IsTyped types) :
    Deferred.IsTyped types (coerceNamed types expand value given) := by
  intro ty path hinput
  -- The named type is one of input, so it is a scalar, an enum or an input object.
  obtain ⟨definition, hnamed, hdefinition⟩ := TypeSystem.namedTypeIs_iff.mp hinput
  rw [coerceNamed, hnamed]
  cases definition with
  | scalar scalar => exact coerceScalar_isTyped _ scalar value path
  | enum type =>
    dsimp only
    split
    · exact coerceEnumName_isTyped type _ path
    · exact coerceEnumName_isTyped type _ path
    · exact .fault path (by simp)
  | inputObject object =>
    cases given with
    | none => exact .fault path (by simp)
    | some entries =>
      have hfields := htypes _ object hnamed
      exact .map _ (coerceFields_isTyped hexpand hfields (hgiven entries rfl))
  | object | interface | union => exact absurd hdefinition (by simp [TypeDefinition.isInput])

omit hexpand htypes in
/-- A value that stands for itself or for a list of one. -/
theorem coerceSingle_isTyped {lenient : Bool} {kind : ValueKind} {named : Deferred}
    (hnamed : named.IsTyped types) : (coerceSingle lenient kind named).IsTyped types := by
  intro ty path hinput
  rw [coerceSingle]
  split
  · split
    · exact .map _ (hnamed ty path hinput)
    · exact .fault path (by simp)
  · exact hnamed ty path hinput

/-- Values that are neither null nor composite. -/
theorem coerceLeaf_isTyped (value : Value) (lenient : Bool) :
    (coerceSingle lenient value.kind (coerceNamed types expand value none)).IsTyped types :=
  coerceSingle_isTyped (coerceNamed_isTyped hexpand htypes fun _ hsome => absurd hsome (by simp))

end Constants

mutual

/-- **Constants of any form** are never at fault for their type, if the expansion of defaults is
not. The recursion is that of the value; a list has the named type of its items, which is why an
input type is passed on to them. -/
theorem coerceValue_isTyped {expand : Value → Deferred}
    (hexpand : ∀ fallback, (expand fallback).IsTyped types) (htypes : types.InputsClosed) :
    ∀ (value : Value) (lenient : Bool), Deferred.IsTyped types (coerceValue types expand lenient value)
  | .null, lenient => by
    intro ty path _
    rw [coerceValue]
    split
    · exact .fault path (by simp)
    · exact .ok _
  | .list items, lenient => by
    intro ty path hinput
    rw [coerceValue]
    split
    next item hitem =>
      -- Items are of an input type if their list is, since both have the same named type.
      have hitems : types.namedTypeIs TypeDefinition.isInput item = true := by
        rw [TypeSystem.namedTypeIs_itemType? hitem]
        exact hinput
      exact .map _ (coerceItems_isTyped hexpand htypes items hitems path 0)
    · have hnamed : Deferred.IsTyped types (coerceNamed types expand (.list items) none) :=
        coerceNamed_isTyped hexpand htypes fun _ hsome => absurd hsome (by simp)
      exact hnamed ty path hinput
  | .object entries, lenient => by
    intro ty path hinput
    rw [coerceValue]
    refine coerceSingle_isTyped (coerceNamed_isTyped hexpand htypes fun given hgiven => ?_) ty path hinput
    obtain rfl := Option.some.inj hgiven
    exact deferEntries_isTyped hexpand htypes entries
  | .bool value, lenient => coerceLeaf_isTyped hexpand htypes (.bool value) lenient
  | .number value, lenient => coerceLeaf_isTyped hexpand htypes (.number value) lenient
  | .string value, lenient => coerceLeaf_isTyped hexpand htypes (.string value) lenient
  | .enum name, lenient => coerceLeaf_isTyped hexpand htypes (.enum name) lenient
  | .binary bytes, lenient => coerceLeaf_isTyped hexpand htypes (.binary bytes) lenient

theorem coerceItems_isTyped {expand : Value → Deferred}
    (hexpand : ∀ fallback, (expand fallback).IsTyped types) (htypes : types.InputsClosed) :
    ∀ (items : List Value) {ty : TypeRef}, types.namedTypeIs TypeDefinition.isInput ty = true →
      ∀ (path : ValuePath) (index : Nat),
        Coerced.IsTyped (coerceItems types expand items ty path index)
  | [], _, _, _, _ => .ok []
  | item :: rest, ty, hinput, path, index => by
    rw [coerceItems]
    refine .bind (coerceValue_isTyped hexpand htypes item false ty _ hinput) fun value => ?_
    exact .bind (coerceItems_isTyped hexpand htypes rest hinput path (index + 1)) fun values => .ok _

theorem deferEntries_isTyped {expand : Value → Deferred}
    (hexpand : ∀ fallback, (expand fallback).IsTyped types) (htypes : types.InputsClosed) :
    ∀ (entries : List (String × Value)),
      ∀ entry ∈ deferEntries types expand entries, entry.2.IsTyped types
  | [], _, hmem => absurd hmem List.not_mem_nil
  | (key, value) :: rest, entry, hmem => by
    rw [deferEntries] at hmem
    rcases List.mem_cons.mp hmem with rfl | hmem
    · exact coerceValue_isTyped hexpand htypes value true
    · exact deferEntries_isTyped hexpand htypes rest entry hmem

end

section Literals

variable (htypes : types.InputsClosed)
include htypes

/-- **Defaults**, at every depth. -/
theorem expandDefault_isTyped (depth : Nat) (value : Value) :
    (expandDefault types depth value).IsTyped types := by
  induction depth generalizing value with
  | zero => exact fun _ _ _ => .endless
  | succ depth ih => exact coerceValue_isTyped ih htypes value true

/-- **Constants.** -/
theorem coerceConstant_isTyped (value : Value) : (coerceConstant types value).IsTyped types :=
  expandDefault_isTyped htypes _ value

/-! ### Literals -/

variable {vars : Variables}

omit htypes in
/-- A variable has the right type already. -/
theorem coerceVariable_isTyped (name : String) :
    DeferredLiteral.IsTyped types (coerceVariable vars name) := by
  intro ty path _
  unfold coerceVariable
  split
  · split
    · exact .fault path (by simp)
    · exact .ok _
  · exact .ok _

/-- The declared fields of an input object. The induction is on them. -/
theorem coerceLiteralFields_isTyped {object : InputObjectType} {path : ValuePath}
    {fields : List InputValueDefinition} {given : Entries DeferredLiteral}
    (hfields : ∀ field ∈ fields, types.namedTypeIs TypeDefinition.isInput field.type = true)
    (hgiven : ∀ entry ∈ given, entry.2.IsTyped types) :
    Coerced.IsTyped (coerceLiteralFields types object path given fields) := by
  induction fields with
  | nil => exact .ok []
  | cons field fields ih =>
    obtain ⟨hfield, hothers⟩ := List.forall_mem_cons.mp hfields
    have hrest := ih hothers
    rw [coerceLiteralFields]
    cases hfound : Entries.get? given field.name
    case' some literal =>
      refine .bind (hgiven _ (Entries.get?_mem hfound) field.type _ hfield) fun value => ?_
    case' none => refine .bind (.ok none) fun value => ?_
    all_goals
      -- The field has the value that is written, its default, or none.
      beta_reduce
      split
      · exact .bind hrest fun entries => .ok _
      next fallback _ =>
        refine .bind (coerceConstant_isTyped htypes fallback field.type _ hfield) fun value => ?_
        exact .bind hrest fun entries => .ok _
      · split
        · exact .fault path (by simp)
        · exact hrest

/-- Literals of a named type. No type that is an input type is left over. -/
theorem coerceLiteralNamed_isTyped {literal : Literal} {given : Option (Entries DeferredLiteral)}
    (hgiven : ∀ entries, given = some entries → ∀ entry ∈ entries, entry.2.IsTyped types) :
    DeferredLiteral.IsTyped types (coerceLiteralNamed types vars literal given) := by
  intro ty path hinput
  -- The named type is one of input, so it is a scalar, an enum or an input object.
  obtain ⟨definition, hnamed, hdefinition⟩ := TypeSystem.namedTypeIs_iff.mp hinput
  rw [coerceLiteralNamed, hnamed]
  cases definition with
  | scalar scalar => exact .map _ (coerceScalar_isTyped _ scalar _ path)
  | enum type =>
    dsimp only
    split
    · exact .map _ (coerceEnumName_isTyped type _ path)
    · exact .fault path (by simp)
  | inputObject object =>
    cases given with
    | none => exact .fault path (by simp)
    | some entries =>
      refine .map _ ?_
      unfold coerceLiteralObject
      split
      · exact .fault path (by simp)
      · exact .map _ (coerceLiteralFields_isTyped htypes (htypes _ object hnamed) (hgiven entries rfl))
  | object | interface | union => exact absurd hdefinition (by simp [TypeDefinition.isInput])

omit htypes in
/-- A literal that stands for itself or for a list of one. -/
theorem coerceLiteralSingle_isTyped {lenient : Bool} {kind : ValueKind} {named : DeferredLiteral}
    (hnamed : named.IsTyped types) : (coerceLiteralSingle lenient kind named).IsTyped types := by
  intro ty path hinput
  rw [coerceLiteralSingle]
  split
  · split
    · exact .map _ (hnamed ty path hinput)
    · exact .fault path (by simp)
  · exact hnamed ty path hinput

/-- Literals that are neither null, variables nor composite. -/
theorem coerceLeafLiteral_isTyped (literal : Literal) (lenient : Bool) :
    (coerceLiteralSingle lenient literal.kind
      (coerceLiteralNamed types vars literal none)).IsTyped types :=
  coerceLiteralSingle_isTyped (coerceLiteralNamed_isTyped htypes fun _ hsome => absurd hsome (by simp))

end Literals

mutual

/-- **Literals of any form** are never at fault for their type. The recursion is that of the
literal, as for constants; a variable stands for a value that has been coerced before, which is
never at fault for a type. -/
theorem coerceLiteral_isTyped (htypes : types.InputsClosed) (vars : Variables) :
    ∀ (literal : Literal) (lenient : Bool),
      DeferredLiteral.IsTyped types (coerceLiteral types vars lenient literal)
  | .var name, lenient => by
    intro ty path hinput
    rw [coerceLiteral]
    exact coerceVariable_isTyped name ty path hinput
  | .null, lenient => by
    intro ty path _
    rw [coerceLiteral]
    split
    · exact .fault path (by simp)
    · exact .ok _
  | .list items, lenient => by
    intro ty path hinput
    rw [coerceLiteral]
    split
    next item hitem =>
      -- Items are of an input type if their list is, since both have the same named type.
      have hitems : types.namedTypeIs TypeDefinition.isInput item = true := by
        rw [TypeSystem.namedTypeIs_itemType? hitem]
        exact hinput
      exact .map _ (coerceLiteralItems_isTyped htypes vars items hitems path 0)
    · have hnamed : DeferredLiteral.IsTyped types (coerceLiteralNamed types vars (.list items) none) :=
        coerceLiteralNamed_isTyped htypes fun _ hsome => absurd hsome (by simp)
      exact hnamed ty path hinput
  | .object entries, lenient => by
    intro ty path hinput
    rw [coerceLiteral]
    refine coerceLiteralSingle_isTyped (coerceLiteralNamed_isTyped htypes fun given hgiven => ?_) ty path
      hinput
    obtain rfl := Option.some.inj hgiven
    exact deferLiterals_isTyped htypes vars entries
  | .bool value, lenient => coerceLeafLiteral_isTyped htypes (.bool value) lenient
  | .number value, lenient => coerceLeafLiteral_isTyped htypes (.number value) lenient
  | .string value, lenient => coerceLeafLiteral_isTyped htypes (.string value) lenient
  | .enum name, lenient => coerceLeafLiteral_isTyped htypes (.enum name) lenient

theorem coerceLiteralItems_isTyped (htypes : types.InputsClosed) (vars : Variables) :
    ∀ (items : List Literal) {ty : TypeRef}, types.namedTypeIs TypeDefinition.isInput ty = true →
      ∀ (path : ValuePath) (index : Nat),
        Coerced.IsTyped (coerceLiteralItems types vars items ty path index)
  | [], _, _, _, _ => .ok []
  | item :: rest, ty, hinput, path, index => by
    rw [coerceLiteralItems]
    -- Whatever the item has become, it is put in front of the others.
    have hcons (value : Value) : Coerced.IsTyped (do
        return value :: (← coerceLiteralItems types vars rest ty path (index + 1))) :=
      .bind (coerceLiteralItems_isTyped htypes vars rest hinput path (index + 1)) fun values => .ok _
    refine .bind (coerceLiteral_isTyped htypes vars item false ty _ hinput) fun written => ?_
    cases written with
    | some value => exact .bind (.ok value) hcons
    | none =>
      dsimp only
      split
      · exact .bind (.fault _ (by simp)) hcons
      · exact .bind (.ok _) hcons

theorem deferLiterals_isTyped (htypes : types.InputsClosed) (vars : Variables) :
    ∀ (entries : List (String × Literal)),
      ∀ entry ∈ deferLiterals types vars entries, entry.2.IsTyped types
  | [], _, hmem => absurd hmem List.not_mem_nil
  | (key, literal) :: rest, entry, hmem => by
    rw [deferLiterals] at hmem
    rcases List.mem_cons.mp hmem with rfl | hmem
    · exact coerceLiteral_isTyped htypes vars literal true
    · exact deferLiterals_isTyped htypes vars rest entry hmem

end

/-! ### Arguments -/

/-- Why the arguments of a field fail: one is given that the field does not have, one has a wrong value,
but none whose type would be no input type, or one is missing. -/
inductive ArgumentFailure (definition : FieldDefinition) : GraphQLError → Prop
  | unknown (argument : Argument) :
      ArgumentFailure definition ((GraphQLError.new
        s!"Unknown argument named '{argument.name}' for the field '{definition.name}'"
        .argumentError).withLocation argument.nameLocation)
  | invalid {argument : InputValueDefinition}
      (hmem : argument ∈ Entries.values definition.arguments.entries) (location : Location)
      (error : InputValueError) (h : ∀ name, error.fault ≠ .notAnInputType name) :
      ArgumentFailure definition (invalidArgument argument location error)
  | missing {argument : InputValueDefinition}
      (hmem : argument ∈ Entries.values definition.arguments.entries) (location : Location) :
      ArgumentFailure definition ((GraphQLError.new
        s!"Argument '{argument.name}' of required type {argument.type} was not provided."
        .argumentError).withLocation location)

section Arguments

variable {definition : FieldDefinition} {node : Field} {vars : Variables} {error : GraphQLError}

theorem argumentFailure_of_coerceArgument (htypes : types.InputsClosed)
    {argument : InputValueDefinition} (hmem : argument ∈ Entries.values definition.arguments.entries)
    (hinput : types.namedTypeIs TypeDefinition.isInput argument.type = true)
    (h : coerceArgument types node vars argument = .error (.invalid error)) :
    ArgumentFailure definition error := by
  -- Whether the argument is omitted tells whether its default or its literal is at fault.
  by_cases homitted : IsOmitted node vars argument.name
  · obtain ⟨location, homission⟩ := @coerceArgument_of_isOmitted types _ _ _ homitted
    rw [homission, coerceOmitted] at h
    split at h
    next fallback hfallback =>
      obtain ⟨⟨fault, path⟩, hsource, rfl⟩ := exists_of_mapError (eq_error_of_map_eq_error h)
      refine .invalid hmem location ⟨fault, path⟩ fun name hfault => ?_
      obtain rfl : fault = .notAnInputType name := hfault
      exact coerceConstant_isTyped htypes fallback argument.type [] hinput name path hsource
    next =>
      split at h
      · obtain rfl := CoercionFailure.invalid.inj (Except.error.inj h)
        exact .missing hmem location
      · exact absurd h (by simp)
  -- The literal is at fault, but not for its type, which is one of input.
  · obtain ⟨written, -, -, hcoerced⟩ := coerceArgument_of_not_isOmitted types homitted
    obtain ⟨⟨fault, path⟩, hsource, rfl⟩ := exists_of_mapError (hcoerced.symm.trans h)
    refine .invalid hmem written.valueLocation ⟨fault, path⟩ fun name hfault => ?_
    obtain rfl : fault = .notAnInputType name := hfault
    exact coerceLiteral_isTyped htypes vars written.value true argument.type [] hinput name path hsource

/-- **The arguments of a field with input types** do not fail because a type is none. -/
theorem argumentFailure_of_coerceArguments (htypes : types.InputsClosed)
    (harguments : ∀ argument ∈ Entries.values definition.arguments.entries,
      types.namedTypeIs TypeDefinition.isInput argument.type = true)
    (h : coerceArguments types definition node vars = .error (.invalid error)) :
    ArgumentFailure definition error := by
  -- The failure is that of the first argument that fails.
  have hdeclared : ∀ arguments : List InputValueDefinition,
      (∀ argument ∈ arguments, argument ∈ Entries.values definition.arguments.entries) →
        coerceDeclared types node vars arguments = .error (.invalid error) →
          ArgumentFailure definition error := by
    intro arguments hall hfails
    obtain ⟨argument, hmem, hargument⟩ := exists_of_coerceDeclared hfails
    have hown := hall argument hmem
    exact argumentFailure_of_coerceArgument htypes hown (harguments argument hown) hargument
  rw [coerceArguments] at h
  split at h
  next argument hunknown =>
    obtain rfl := CoercionFailure.invalid.inj (Except.error.inj h)
    exact .unknown argument
  next => exact hdeclared _ (fun argument hmem => hmem) (eq_error_of_map h)

end Arguments

/-! ### Variables -/

/-- Why a declared variable fails: its type is no input type, its value is wrong, but not because a type
is none, or it is missing. -/
inductive VariableFailure (definition : VariableDefinition) : GraphQLError → Prop
  | notInputType (ty : TypeRef) :
      VariableFailure definition ((variableError
        s!"Variable ${definition.name} expected value of type {ty} which cannot be used as an input type."
        ).withLocation definition.location)
  | invalid (error : InputValueError) (h : ∀ name, error.fault ≠ .notAnInputType name) :
      VariableFailure definition ((variableError
        s!"Variable ${definition.name} got an invalid value: {error.message}").withLocation
        definition.location)
  | missing (ty : TypeRef) :
      VariableFailure definition ((variableError
        s!"Variable ${definition.name} of required type {ty} was not provided.").withLocation
        definition.location)

/-- **The value of a variable** is only coerced to its type if that is an input type. So a
declaration fails for one of three reasons, in the order in which they are looked for: its type, a
missing value, or a fault of its value that is not one of the type. -/
theorem variableFailure_of_coerceDeclaredVariable (htypes : types.InputsClosed)
    {definition : VariableDefinition} {given : Option Value} {error : GraphQLError}
    (h : coerceDeclaredVariable types definition given = .ok (.failed error)) :
    VariableFailure definition error := by
  unfold coerceDeclaredVariable at h
  dsimp only at h
  split at h
  · exact absurd h (by simp)
  next ty hty =>
    split at h
    · obtain rfl := VariableOutcome.failed.inj (Except.ok.inj h)
      exact .notInputType ty
    -- The declared type is one of input, so a fault of the value is not one of the type.
    next hinput =>
      have hinput : types.namedTypeIs TypeDefinition.isInput ty = true := by simpa using hinput
      split at h
      next value hvalue =>
        split at h
        · exact absurd h (by simp)
        next failure hfailure =>
          obtain rfl := VariableOutcome.failed.inj (Except.ok.inj h)
          obtain ⟨fault, path⟩ := failure
          refine .invalid ⟨fault, path⟩ fun name hfault => ?_
          obtain rfl : fault = .notAnInputType name := hfault
          exact coerceConstant_isTyped htypes value ty [] hinput name path hfailure
        · exact absurd h (by simp)
      -- No value is given, which is a fault if the type excludes null.
      · split at h
        · obtain rfl := VariableOutcome.failed.inj (Except.ok.inj h)
          exact .missing ty
        · exact absurd h (by simp)

end Coercion

end GraphQL
