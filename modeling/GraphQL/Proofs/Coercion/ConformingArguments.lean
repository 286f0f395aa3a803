import GraphQL.Coercion.Arguments
import GraphQL.Execution.Basic
import GraphQL.Proofs.Coercion.ConformingLiterals
import GraphQL.Proofs.Coercion.LiteralAsVariable
import GraphQL.Proofs.Coroutine.Logs

/-!
# Resolvers see arguments that conform

The arguments of a field are written as literals or come from defaults. If they can be coerced,
every one of them conforms to its declared type, as long as every variable is declared with the type
of the position that it is used at. If they cannot, the field fails before anything is called.

* `Coercion.origin_of_coerceArgument` — where the value of an argument comes from;
* `Coercion.ArgumentFits`, `Coercion.coerceDeclared_filledBy` — the arguments of a field, by
  induction on their declarations;
* `Coercion.code_of_coerceArguments` — what is wrong with arguments is an argument error;
* `arguments_conform` — what the resolver of a field sees, or what becomes of the field without it.
-/

namespace GraphQL

namespace Coercion

/-! ### Arguments -/

section Arguments

variable {types : TypeSystem} {vars : Variables} {fits : String → TypeRef → Prop} {node : Field}
  {definition : InputValueDefinition}

/-- Nothing is given for an argument: it is not written, or it is a variable without a value. -/
def IsOmitted (node : Field) (vars : Variables) (name : String) : Prop :=
  ∀ argument, Argument.find? node.arguments name = some argument →
    ∃ unset, argument.value = .var unset ∧ vars.get? unset = none

/-- Null is given for an argument, as it is or by a variable. -/
def IsGivenNull (node : Field) (vars : Variables) (name : String) : Prop :=
  ∃ argument, Argument.find? node.arguments name = some argument ∧
    (argument.value = .null ∨ ∃ given, argument.value = .var given ∧ vars.get? given = some .null)

theorem not_isGivenNull_of_isOmitted {name : String} (h : IsOmitted node vars name) :
    ¬ IsGivenNull node vars name := by
  rintro ⟨argument, hfound, hnull⟩
  obtain ⟨unset, hunset, hget⟩ := h argument hfound
  rcases hnull with hnull | ⟨given, hgiven, hvalue⟩
  · exact absurd (hunset.symm.trans hnull) (by simp)
  · obtain rfl : unset = given := Literal.var.inj (hunset.symm.trans hgiven)
    exact absurd (hget.symm.trans hvalue) (by simp)

/-- What resolvers rely on for an argument, with the value that they see or without any. -/
structure ArgumentFits (types : TypeSystem) (node : Field) (vars : Variables)
    (definition : InputValueDefinition) (value : Option Value) : Prop where
  conforms : ConformsToField types definition value
  required : definition.type.isNonNull = true → ∃ given, value = some given ∧ given ≠ .null
  fallback : IsOmitted node vars definition.name → ∀ fallback, definition.fallback = some fallback →
    ∃ given, value = some given ∧ coerceConstant types fallback definition.type [] = .ok given
  givenNull : IsGivenNull node vars definition.name → value = some .null

/-- Where the value of an argument comes from. -/
inductive ArgumentOrigin (types : TypeSystem) (node : Field) (vars : Variables)
    (definition : InputValueDefinition) : Option Value → Prop
  | written {argument : Argument} {value : Value}
      (hfound : Argument.find? node.arguments definition.name = some argument)
      (hvalue : coerceLiteral types vars true argument.value definition.type [] = .ok (some value)) :
      ArgumentOrigin types node vars definition (some value)
  | fallback {fallback value : Value} (homitted : IsOmitted node vars definition.name)
      (hfallback : definition.fallback = some fallback)
      (hvalue : coerceConstant types fallback definition.type [] = .ok value) :
      ArgumentOrigin types node vars definition (some value)
  | nothing (homitted : IsOmitted node vars definition.name) (hfallback : definition.fallback = none)
      (hnullable : definition.type.isNonNull = false) :
      ArgumentOrigin types node vars definition none

/-- The error of an argument whose value is wrong. -/
def invalidArgument (definition : InputValueDefinition) (location : Location)
    (error : InputValueError) : GraphQLError :=
  let message := error.message
  (GraphQLError.new s!"Argument '{definition.name}' got an invalid value: {message}"
    .argumentError).withLocation location

/-- What becomes of an argument for which nothing is given. -/
def coerceOmitted (types : TypeSystem) (definition : InputValueDefinition) (location : Location) :
    Except (CoercionFailure GraphQLError) (Option Value) :=
  match definition.fallback with
  | some fallback =>
      ((coerceConstant types fallback definition.type []).mapError
        (CoercionFailure.map (invalidArgument definition location))).map some
  | none =>
      if definition.type.isNonNull then
        argumentError
          s!"Argument '{definition.name}' of required type {definition.type} was not provided."
          location
      else .ok none

/-- An argument for which nothing is given has its default, if it has one. -/
theorem coerceArgument_of_isOmitted (h : IsOmitted node vars definition.name) :
    ∃ location, coerceArgument types node vars definition = coerceOmitted types definition location := by
  have hbind : ∀ (result : Except (CoercionFailure GraphQLError) Value),
      (result >>= fun value => pure (some value)) = result.map some := fun result => by
    cases result <;> rfl
  rw [coerceArgument]
  -- Nothing is written, or a variable that has no value: either way the default decides.
  cases hfound : Argument.find? node.arguments definition.name with
  | none =>
    refine ⟨node.location, ?_⟩
    rw [coerceOmitted]
    cases definition.fallback with
    | some fallback => exact hbind _
    | none => rfl
  | some argument =>
    obtain ⟨unset, hunset, hget⟩ := h argument hfound
    refine ⟨argument.valueLocation, ?_⟩
    have hliteral : coerceLiteral types vars true argument.value definition.type [] = .ok none := by
      rw [hunset, coerceLiteral, coerceVariable, hget]
    dsimp only
    rw [hliteral, coerceOmitted]
    cases definition.fallback with
    | some fallback => exact hbind _
    | none => rfl

/-- An argument for which something is given has the value of its literal, whatever its default. -/
theorem coerceArgument_of_not_isOmitted (types : TypeSystem)
    (h : ¬ IsOmitted node vars definition.name) :
    ∃ argument, Argument.find? node.arguments definition.name = some argument ∧
      coerceLiteral types vars true argument.value definition.type [] ≠ .ok none ∧
      coerceArgument types node vars definition =
        (coerceLiteral types vars true argument.value definition.type []).mapError
          (CoercionFailure.map (invalidArgument definition argument.valueLocation)) := by
  rw [IsOmitted] at h
  -- Something is written, and it is not a variable without a value.
  push Not at h
  obtain ⟨argument, hfound, hset⟩ := h
  have hvalue : coerceLiteral types vars true argument.value definition.type [] ≠ .ok none := by
    intro hnone
    obtain ⟨unset, hunset, hget⟩ := unset_of_coerceLiteral hnone
    exact hset unset hunset hget
  refine ⟨argument, hfound, hvalue, ?_⟩
  rw [coerceArgument, hfound]
  dsimp only
  -- What is written is coerced to a value or at fault, so the default is not looked at.
  cases hliteral : coerceLiteral types vars true argument.value definition.type [] with
  | error failure => rfl
  | ok written =>
    cases written with
    | some given => rfl
    | none => exact absurd hliteral hvalue

theorem mapError_eq_ok {α ε ζ : Type} {f : ε → ζ} {result : Except ε α} {value : α} :
    result.mapError f = .ok value ↔ result = .ok value := by
  cases result <;> simp [Except.mapError]

/-- **An argument has the value that is written for it, or its default, or none.** Whether it is
omitted decides: then only a default or a type that may be null keeps it from being a fault.
Otherwise its literal has been coerced, and the failure of that would have been a failure of the
argument. -/
theorem origin_of_coerceArgument {value : Option Value}
    (h : coerceArgument types node vars definition = .ok value) :
    ArgumentOrigin types node vars definition value := by
  by_cases homitted : IsOmitted node vars definition.name
  · obtain ⟨location, homission⟩ := @coerceArgument_of_isOmitted types _ _ _ homitted
    rw [homission, coerceOmitted] at h
    split at h
    next fallback hfallback =>
      -- A default gives a value, which it is coerced to as a constant.
      obtain ⟨result, hresult, rfl⟩ : ∃ result, coerceConstant types fallback definition.type [] =
          .ok result ∧ some result = value := by
        cases hconstant : coerceConstant types fallback definition.type [] with
        | error failure =>
          rw [hconstant] at h
          exact absurd h (by simp [Except.mapError, Except.map])
        | ok result =>
          rw [hconstant] at h
          exact ⟨result, rfl, Except.ok.inj h⟩
      exact .fallback homitted hfallback hresult
    next hfallback =>
      split at h
      · exact absurd h (by simp [argumentError])
      next hnullable =>
        obtain rfl : none = value := Except.ok.inj h
        exact .nothing homitted hfallback (Bool.eq_false_iff.mpr hnullable)
  · obtain ⟨argument, hfound, hset, hcoerced⟩ := coerceArgument_of_not_isOmitted types homitted
    -- A fault of what is written would have been one of the argument.
    have hliteral := mapError_eq_ok.mp (hcoerced.symm.trans h)
    cases value with
    | none => exact absurd hliteral hset
    | some given => exact .written hfound hliteral

/-- **A coerced argument is what resolvers rely on.** Each origin settles all four parts at once: a
written value conforms because literals do, a default because constants do, and nothing is there
only for a type that may be null without a default. -/
theorem ArgumentOrigin.argumentFits (htypes : types.NeverNull) (hvars : VariablesConform types fits vars)
    (hnode : ∀ argument, Argument.find? node.arguments definition.name = some argument →
      argument.value.VariablesFit types fits definition.type) {value : Option Value}
    (h : ArgumentOrigin types node vars definition value) :
    ArgumentFits types node vars definition value := by
  -- Where the value comes from tells what can be said about it.
  cases h with
  | @written argument value hfound hvalue =>
    have hconforms : ConformsToInput types definition.type value :=
      coerceLiteral_conforms hvars argument.value true _ (hnode argument hfound) _ _ hvalue
    refine ⟨.value hconforms, fun hnonNull => ⟨value, rfl, hconforms.ne_null htypes hnonNull⟩, ?_, ?_⟩
    · -- A variable without a value would have been coerced to nothing.
      intro homitted
      obtain ⟨unset, hunset, hget⟩ := homitted argument hfound
      rw [hunset, coerceLiteral, coerceVariable, hget] at hvalue
      exact absurd (Except.ok.inj hvalue) (by simp)
    · rintro ⟨other, hother, hnull⟩
      obtain rfl : argument = other := Option.some.inj (hfound.symm.trans hother)
      -- What is written is null, or a variable that is null: either is coerced to null.
      rcases hnull with hnull | ⟨given, hgiven, hget⟩
      · rw [hnull, coerceLiteral] at hvalue
        split at hvalue
        · exact absurd hvalue fault_ne_ok
        · exact (Except.ok.inj hvalue).symm
      · rw [hgiven, coerceLiteral, coerceVariable, hget] at hvalue
        dsimp only at hvalue
        split at hvalue
        · exact absurd hvalue fault_ne_ok
        · exact (Except.ok.inj hvalue).symm
  | @fallback fallback value homitted hfallback hvalue =>
    have hconforms := coerceConstant_conforms fallback _ _ _ hvalue
    refine ⟨.value hconforms, fun hnonNull => ⟨value, rfl, hconforms.ne_null htypes hnonNull⟩, ?_, ?_⟩
    · intro _ other hother
      obtain rfl : fallback = other := Option.some.inj (hfallback.symm.trans hother)
      exact ⟨value, rfl, hvalue⟩
    · exact fun hgiven => absurd hgiven (not_isGivenNull_of_isOmitted homitted)
  | nothing homitted hfallback hnullable =>
    refine ⟨.absent hnullable hfallback, fun hnonNull => ?_, fun _ other hother => ?_, ?_⟩
    · exact absurd (hnonNull.symm.trans hnullable) (by decide)
    · exact absurd (hfallback.symm.trans hother) (by simp)
    · exact fun hgiven => absurd hgiven (not_isGivenNull_of_isOmitted homitted)

/-- **Coerced arguments are what resolvers rely on**, one for each declared argument that has a
value and in the order of the declarations, by induction on these. -/
theorem coerceDeclared_filledBy (htypes : types.NeverNull) (hvars : VariablesConform types fits vars)
    {definitions : List InputValueDefinition} (hnode : node.VariablesFit types fits definitions)
    {arguments : Arguments} (h : coerceDeclared types node vars definitions = .ok arguments) :
    FilledBy (ArgumentFits types node vars) definitions arguments := by
  induction definitions generalizing arguments with
  | nil =>
    obtain rfl := Except.ok.inj h
    exact .nil
  | cons definition rest ih =>
    have hlater : node.VariablesFit types fits rest :=
      fun other hmem => hnode other (List.mem_cons_of_mem definition hmem)
    rw [coerceDeclared] at h
    -- The argument is coerced first. A fault would have been one of all arguments.
    cases hvalue : coerceArgument types node vars definition with
    | error failure => rw [hvalue] at h; exact absurd h (by simp [bind, Except.bind])
    | ok value =>
      rw [hvalue] at h
      have hfits : ArgumentFits types node vars definition value :=
        (origin_of_coerceArgument hvalue).argumentFits htypes hvars
          (hnode definition List.mem_cons_self)
      cases value with
      | none => exact .absent hfits (ih hlater h)
      | some given =>
        cases hrest : coerceDeclared types node vars rest with
        | error failure => simp [hrest, bind, Except.bind] at h
        | ok others =>
          have harguments : arguments = (definition.name, given) :: others := by
            simpa [hrest, bind, Except.bind, pure, Except.pure, eq_comm] using h
          rw [harguments]
          exact .present hfits (ih hlater hrest)

theorem filledBy_of_coerceArguments (htypes : types.NeverNull)
    (hvars : VariablesConform types fits vars) {field : FieldDefinition}
    (hnode : node.VariablesFit types fits (Entries.values field.arguments.entries)) {arguments : Arguments}
    (h : coerceArguments types field node vars = .ok arguments) :
    FilledBy (ArgumentFits types node vars) (Entries.values field.arguments.entries) arguments := by
  rw [coerceArguments] at h
  split at h
  · exact absurd h (by simp [argumentError])
  · cases hdeclared : coerceDeclared types node vars (Entries.values field.arguments.entries) with
    | error failure =>
      rw [hdeclared] at h
      exact absurd h (by simp [Except.map])
    | ok pairs =>
      have hfilled := coerceDeclared_filledBy htypes hvars hnode hdeclared
      -- No two declarations share a name, so no value replaces another one.
      rw [hdeclared] at h
      obtain rfl := Except.ok.inj h
      rw [Entries.ofPairs_eq_of_sublist field.arguments hfilled.keys_sublist]
      exact hfilled

/-! ### Failures -/

/-- Changing a result does not make a failure. -/
theorem eq_error_of_map {ε α β : Type} {f : α → β} {result : Except ε α} {failure : ε}
    (h : result.map f = .error failure) : result = .error failure := by
  cases result with
  | error other => exact congrArg Except.error (Except.error.inj h)
  | ok value => cases h

/-- An error about a value is made from an error of that value. -/
theorem exists_of_mapError {α : Type} {result : Coerced α} {f : InputValueError → GraphQLError}
    {error : GraphQLError} (h : result.mapError (CoercionFailure.map f) = .error (.invalid error)) :
    ∃ source, result = .error (.invalid source) ∧ error = f source := by
  cases result with
  | ok value => exact absurd h (by simp [Except.mapError])
  | error failure =>
    cases failure with
    | invalid source => exact ⟨source, rfl, (CoercionFailure.invalid.inj (Except.error.inj h)).symm⟩
    | endless => exact absurd (Except.error.inj h) (by simp [CoercionFailure.map])

/-- What is made of a value fails where the value does. -/
theorem eq_error_of_map_eq_error {α β ε : Type} {f : α → β} {result : Except ε α} {error : ε}
    (h : result.map f = .error error) : result = .error error := by
  cases result with
  | ok value => exact absurd h (by simp [Except.map])
  | error failure => exact congrArg _ (Except.error.inj h)

theorem code_of_coerceArgument {error : GraphQLError}
    (h : coerceArgument types node vars definition = .error (.invalid error)) :
    error.code = .argumentError := by
  by_cases homitted : IsOmitted node vars definition.name
  · obtain ⟨location, homission⟩ := @coerceArgument_of_isOmitted types _ _ _ homitted
    rw [homission, coerceOmitted] at h
    -- The default is at fault, or a value is missing; both are reported as argument errors.
    split at h
    next fallback hfallback =>
      obtain ⟨source, -, rfl⟩ := exists_of_mapError (eq_error_of_map_eq_error h)
      rfl
    next =>
      split at h
      · obtain rfl := CoercionFailure.invalid.inj (Except.error.inj h)
        rfl
      · exact absurd h (by simp)
  · obtain ⟨argument, -, -, hcoerced⟩ := coerceArgument_of_not_isOmitted types homitted
    obtain ⟨source, -, rfl⟩ := exists_of_mapError (hcoerced.symm.trans h)
    rfl

/-- The failure of some arguments is that of one of them, and it is passed on unchanged. The
induction is on the definitions: a later argument can only fail where all earlier ones have been
coerced, so the first failure is the only one. -/
theorem exists_of_coerceDeclared {definitions : List InputValueDefinition} {error : GraphQLError}
    (h : coerceDeclared types node vars definitions = .error (.invalid error)) :
    ∃ definition ∈ definitions, coerceArgument types node vars definition = .error (.invalid error) := by
  induction definitions with
  | nil => exact absurd h (by simp [coerceDeclared])
  | cons definition rest ih =>
    rw [coerceDeclared] at h
    have hlater (h : coerceDeclared types node vars rest = .error (.invalid error)) :
        ∃ other ∈ definition :: rest,
          coerceArgument types node vars other = .error (.invalid error) := by
      obtain ⟨other, hmem, hother⟩ := ih h
      exact ⟨other, List.mem_cons_of_mem definition hmem, hother⟩
    -- Either this argument is the one at fault, or it is one of those behind it.
    cases hvalue : coerceArgument types node vars definition with
    | error failure =>
      rw [hvalue] at h
      obtain rfl : failure = .invalid error := Except.error.inj h
      exact ⟨definition, List.mem_cons_self, hvalue⟩
    | ok value =>
      rw [hvalue] at h
      cases value with
      | none => exact hlater h
      | some given =>
        cases hrest : coerceDeclared types node vars rest with
        | error failure =>
          have hfailure : failure = .invalid error := by
            simpa [hrest, bind, Except.bind] using h
          exact hlater (hfailure ▸ hrest)
        | ok others => simp [hrest, bind, Except.bind, pure, Except.pure] at h

/-- **What is wrong with the arguments of a field is an argument error.** -/
theorem code_of_coerceArguments {field : FieldDefinition} {error : GraphQLError}
    (h : coerceArguments types field node vars = .error (.invalid error)) :
    error.code = .argumentError := by
  rw [coerceArguments] at h
  split at h
  · obtain rfl := CoercionFailure.invalid.inj (Except.error.inj h)
    rfl
  · obtain ⟨definition, -, hargument⟩ := exists_of_coerceDeclared (eq_error_of_map h)
    exact code_of_coerceArgument hargument

end Arguments

end Coercion

/-! ### Fields -/

namespace ExecutionContext

variable {ctx : ExecutionContext} {select : Select} {object : ObjectType} {parent : FieldValue}
  {path : QueryPath} {key : String} {node : Field} {others : List Field}
  {definition : FieldDefinition}

/-- A field of an object type, if it is not the name of the type. -/
theorem executeField_of_field? (hname : node.name ≠ "__typename")
    (hfield : object.field? node.name = some definition) :
    ctx.executeField select object parent path key (node :: others) =
      ctx.executeDefined select object parent path.isEmpty definition node
        (ctx.resolveInfo object definition node.name (node :: others)
          (path.field key object.name)) := by
  have hbeq : (node.name == "__typename") = false := beq_false_of_ne hname
  rw [executeField, hbeq, hfield]
  rfl

/-- A field whose arguments can be coerced starts with the call of its resolver, with these. -/
theorem log_executeField_of_arguments (hname : node.name ≠ "__typename")
    (hfield : object.field? node.name = some definition) {arguments : Arguments}
    (h : Coercion.coerceArguments ctx.schema.types definition node ctx.vars = .ok arguments) :
    [.called (path.field key object.name) parent arguments] <+:
      (ctx.executeField select object parent path key (node :: others)).log := by
  rw [executeField_of_field? hname hfield, executeDefined, h]
  refine List.IsPrefix.trans ?_ (Coroutine.log_initial_bind _ _)
  rw [invoke, Coroutine.log_prepend]
  exact List.prefix_append _ _

/-- **A field whose arguments are wrong fails at once**: nothing is called, and its error is
recorded where it may be null and left to the object where it may not. -/
theorem executeField_of_invalid (hname : node.name ≠ "__typename")
    (hfield : object.field? node.name = some definition) {error : GraphQLError}
    (h : Coercion.coerceArguments ctx.schema.types definition node ctx.vars =
      .error (.invalid error)) :
    let located := error.withPath (path.field key object.name).toErrorPath
    ctx.executeField select object parent path key (node :: others) =
      if definition.type.isNonNull then .finish [.failed located] (.error located)
      else .finish [.failed located, .recorded located] (.ok .null) := by
  rw [executeField_of_field? hname hfield, executeDefined, h]
  cases definition.type.isNonNull <;> rfl

end ExecutionContext

/-- **Resolvers see arguments that conform to the schema.** If the arguments of a field can be
coerced, there is one for each declared argument that has a value, in the order of the declarations,
and it is what resolvers rely on; the field starts with the call of its resolver with these
arguments. If they are wrong, the field fails with one argument error at its own place, and nothing
is called. -/
theorem arguments_conform {ctx : ExecutionContext} (htypes : ctx.schema.types.NeverNull) {limit : Nat}
    {declarations : List VariableDefinition} {raw : Variables}
    (hvars : Coercion.coerceVariables ctx.schema.types limit declarations raw = .ok (.ok ctx.vars))
    {definition : FieldDefinition} {node : Field}
    (hnode : node.VariablesFit ctx.schema.types (IsDeclaredFor declarations)
      (Entries.values definition.arguments.entries)) :
    (∀ arguments,
        Coercion.coerceArguments ctx.schema.types definition node ctx.vars = .ok arguments →
      FilledBy (Coercion.ArgumentFits ctx.schema.types node ctx.vars)
        (Entries.values definition.arguments.entries) arguments) ∧
      ∀ (select : Select) (object : ObjectType) (parent : FieldValue) (path : QueryPath)
        (key : String) (others : List Field), node.name ≠ "__typename" →
        object.field? node.name = some definition →
        let run := ctx.executeField select object parent path key (node :: others)
        let place := path.field key object.name
        (∀ arguments,
            Coercion.coerceArguments ctx.schema.types definition node ctx.vars = .ok arguments →
          [.called place parent arguments] <+: run.log) ∧
        (∀ error, Coercion.coerceArguments ctx.schema.types definition node ctx.vars =
            .error (.invalid error) →
          error.code = .argumentError ∧
            run = if definition.type.isNonNull then
                .finish [.failed (error.withPath place.toErrorPath)]
                  (.error (error.withPath place.toErrorPath))
              else
                .finish [.failed (error.withPath place.toErrorPath),
                  .recorded (error.withPath place.toErrorPath)] (.ok .null)) ∧
        (Coercion.coerceArguments ctx.schema.types definition node ctx.vars = .error .endless →
          run = .abort [] .endless) := by
  have hconform : Coercion.VariablesConform ctx.schema.types (IsDeclaredFor declarations) ctx.vars :=
    Coercion.variablesConform hvars
  -- The arguments come first. What the field does then depends on them alone.
  refine ⟨fun arguments => Coercion.filledBy_of_coerceArguments htypes hconform hnode, ?_⟩
  intro select object parent path key others hname hfield
  refine ⟨fun arguments harguments => ?_, fun error herror => ⟨?_, ?_⟩, fun hendless => ?_⟩
  · exact ExecutionContext.log_executeField_of_arguments hname hfield harguments
  · exact Coercion.code_of_coerceArguments herror
  · exact ExecutionContext.executeField_of_invalid hname hfield herror
  · simp only [ExecutionContext.executeField_of_field? hname hfield,
      ExecutionContext.executeDefined, hendless]

/-! ### A filter of variables -/

/-- The scalars of the engine make null of nothing but null. -/
theorem ScalarType.ne_null_of_mem {scalar : ScalarType} (h : scalar ∈ builtins ++ extras)
    {source : Value} (hsource : source ≠ .null) :
    scalar.parseValue source ≠ .ok .null ∧ scalar.parseLiteral source ≠ .ok .null := by
  -- A number is an integer in one way only, and a literal stands for itself.
  have hint : parseIntValue source ≠ .ok .null := by
    cases source <;> first | exact parseIntNumber_ne_null _ | simp [parseIntValue]
  have hliteral : ∀ scalar ∈ builtins ++ extras, scalar.parseLiteral source ≠ .ok .null :=
    fun scalar hmem hnull => (faithful_of_mem hmem _ _ hsource hnull).1 rfl
  refine ⟨?_, hliteral scalar h⟩
  simp only [builtins, extras, List.cons_append, List.nil_append, List.mem_cons,
    List.not_mem_nil, or_false] at h
  -- What is left is one case for each scalar.
  rcases h with rfl | rfl | rfl | rfl | rfl | rfl | rfl
  · exact hint
  · exact parseFloat_ne_null source
  · exact parseString_ne_null source
  · exact parseBoolean_ne_null source
  · exact parseId_ne_null source
  · exact parseTimestamp_ne_null source
  · exact fun hnull => hsource (Except.ok.inj hnull)

namespace VariableFilterSample

/-- A colour, which may be null although filters need one, and tags. -/
def declarations : List VariableDefinition :=
  [⟨"c", .named "Color" false, [], none, ⟨1, 7⟩⟩,
    ⟨"t", .list (.named "String" true) false, [], none, ⟨1, 18⟩⟩]

/-- A filter of both variables. -/
def node : Field where
  label := none
  name := "count"
  arguments := [⟨"by", ⟨1, 40⟩, .object [("color", .var "c"), ("tags", .var "t")], ⟨1, 44⟩⟩]
  directives := []
  selections := []
  location := ⟨1, 34⟩

def document : Document :=
  ⟨.anonymous ⟨.query, declarations, [], [.field node], ⟨1, 1⟩⟩, []⟩

/-- The request has a colour, and no tags. -/
def params : ExecutionParams := { vars := Variables.empty.insert "c" (.string "GREEN") }

/-- The definition of the field. -/
def count : FieldDefinition :=
  ⟨"count", none, .named "Int",
    .ofList [⟨"by", none, ⟨"Filter", (Wrapping.required.wrapList?).getD .nullable⟩, none⟩]⟩

theorem neverNull : (FilterSample.schema 50).types.NeverNull where
  scalars name scalar htype source hsource := by
    have hmem : .scalar scalar ∈ Entries.values (FilterSample.schema 50).types.types :=
      List.mem_map_of_mem (Entries.get?_mem htype)
    have hbuiltin : scalar ∈ ScalarType.builtins := by
      simpa [FilterSample.values_eq, ScalarType.builtins] using hmem
    exact ScalarType.ne_null_of_mem (List.mem_append_left _ hbuiltin) hsource
  enums name type htype :=
    FilterSample.readsAlike.enums type (List.mem_map_of_mem (Entries.get?_mem htype))

theorem eq_of_mem_filter {field : InputValueDefinition}
    (h : field ∈ Entries.values FilterSample.filter.fields.entries) :
    field = ⟨"color", none, .namedNonNull "Color", none⟩ ∨
      field = ⟨"tags", none, ⟨"String", (Wrapping.required.wrapList?).getD .nullable⟩, none⟩ ∨
      field = ⟨"limit", none, .named "Int", some (.int 10)⟩ := by
  have hvalues : Entries.values FilterSample.filter.fields.entries =
      [⟨"color", none, .namedNonNull "Color", none⟩,
        ⟨"tags", none, ⟨"String", (Wrapping.required.wrapList?).getD .nullable⟩, none⟩,
        ⟨"limit", none, .named "Int", some (.int 10)⟩] := rfl
  simpa [hvalues] using h

/-- The variables of the sample fit the fields of the filter that they stand for. The argument has a
single object literal, so this is a look at each of its two variables against each of the three
declared fields. -/
theorem variablesFit : node.VariablesFit (FilterSample.schema 50).types
    (IsDeclaredFor declarations) (Entries.values count.arguments.entries) := by
  -- There is one argument, and its literal is an object with two variables.
  intro definition hmem argument hargument
  obtain rfl : definition = ⟨"by", none, ⟨"Filter", (Wrapping.required.wrapList?).getD .nullable⟩,
    none⟩ := List.mem_singleton.mp hmem
  obtain rfl := Option.some.inj hargument
  have hcolor : IsDeclaredFor declarations "c" (.namedNonNull "Color") := by
    intro declared hdeclared hname
    obtain rfl | rfl : declared = ⟨"c", .named "Color" false, [], none, ⟨1, 7⟩⟩ ∨
        declared = ⟨"t", .list (.named "String" true) false, [], none, ⟨1, 18⟩⟩ := by
      simpa [declarations] using hdeclared
    · exact ⟨.named "Color", rfl, .inr rfl⟩
    · exact absurd hname (by decide)
  have htags : IsDeclaredFor declarations "t"
      ⟨"String", (Wrapping.required.wrapList?).getD .nullable⟩ := by
    intro declared hdeclared hname
    obtain rfl | rfl : declared = ⟨"c", .named "Color" false, [], none, ⟨1, 7⟩⟩ ∨
        declared = ⟨"t", .list (.named "String" true) false, [], none, ⟨1, 18⟩⟩ := by
      simpa [declarations] using hdeclared
    · exact absurd hname (by decide)
    · exact ⟨_, rfl, .inl rfl⟩
  intro object htype
  obtain rfl : FilterSample.filter = object :=
    TypeDefinition.inputObject.inj (Option.some.inj htype)
  -- A variable may stand for any field of its name, so all three fields are looked through.
  refine ⟨fun field hfield hname => ?_, fun field hfield hname => ?_, trivial⟩
  · obtain rfl | rfl | rfl := eq_of_mem_filter hfield
    · exact hcolor
    · exact absurd hname (by decide)
    · exact absurd hname (by decide)
  · obtain rfl | rfl | rfl := eq_of_mem_filter hfield
    · exact absurd hname (by decide)
    · exact htags
    · exact absurd hname (by decide)

end VariableFilterSample

/-- A filter of a colour that is given as a variable and of tags that are not given: resolvers see
the internal value of the colour, no tags, and the default of the limit. -/
theorem arguments_conform_sample :
    ∃ (ctx : ExecutionContext) (arguments : Arguments),
      ExecutionContext.build (FilterSample.schema 50) VariableFilterSample.document
        VariableFilterSample.params = .ok (.ok ctx) ∧
      arguments = [("by", .list [.object [("color", .int 2), ("limit", .int 10)]])] ∧
      FilledBy (Coercion.ArgumentFits ctx.schema.types VariableFilterSample.node ctx.vars)
        (Entries.values VariableFilterSample.count.arguments.entries) arguments ∧
      [.called (QueryPath.empty.field "count" "Query") .null arguments] <+:
        (ctx.executeField (ctx.selectWithin ctx.depthLimit) FilterSample.query .null .empty "count"
          [VariableFilterSample.node]).log := by
  obtain ⟨ctx, hbuild, hschema, hvars, arguments, harguments, hvalue⟩ :
      ∃ ctx : ExecutionContext,
        ExecutionContext.build (FilterSample.schema 50) VariableFilterSample.document
          VariableFilterSample.params = .ok (.ok ctx) ∧
        ctx.schema = FilterSample.schema 50 ∧
        Coercion.coerceVariables (FilterSample.schema 50).types 50 VariableFilterSample.declarations
          VariableFilterSample.params.vars = .ok (.ok ctx.vars) ∧
        ∃ arguments : Arguments,
          Coercion.coerceArguments ctx.schema.types VariableFilterSample.count
            VariableFilterSample.node ctx.vars = .ok arguments ∧
          arguments = [("by", .list [.object [("color", .int 2), ("limit", .int 10)]])] :=
    ⟨_, rfl, rfl, rfl, _, rfl, rfl⟩
  obtain ⟨hfits, hruns⟩ := @arguments_conform ctx (hschema ▸ VariableFilterSample.neverNull) 50
    VariableFilterSample.declarations VariableFilterSample.params.vars (hschema ▸ hvars)
    VariableFilterSample.count VariableFilterSample.node
    (hschema ▸ VariableFilterSample.variablesFit)
  obtain ⟨hcalled, -, -⟩ := hruns (ctx.selectWithin ctx.depthLimit) FilterSample.query .null .empty
    "count" [] (by decide) rfl
  exact ⟨ctx, arguments, hbuild, hvalue, hfits arguments harguments, hcalled arguments harguments⟩

end GraphQL
