import GraphQL.Coercion.Arguments
import GraphQL.Proofs.Coercion.Literals
import GraphQL.Proofs.Coercion.Variables
import GraphQL.Schema.Builder

/-!
# A literal and a variable of its value

An argument may be written as a literal, or as a variable that the request gives the value of the
literal. Resolvers see no difference, as long as variables are coerced at all: a schema that accepts no
error in the variables of a request accepts no declaration of a variable either.

That the value of the literal is coerced to the same value is shown in `Literals`. From there it is
a matter of looking it up: the declaration stores it under its name, no other declaration does, and
the argument finds it there.

* `Coercion.coerceArguments_withArgument` — two ways to write an argument that are coerced to one value
  lead to the same arguments;
* `literal_as_variable` — a literal and a variable of its value are the same to a resolver;
* `variable_refused_without_limit` — unless there is no room for any error.
-/

namespace GraphQL

/-- The field with another literal for the arguments of the given name. -/
def FieldNode.withArgument {selection : Type} (node : FieldNode selection) (name : String)
    (value : Literal) : FieldNode selection :=
  { node with arguments := node.arguments.map fun argument =>
      if argument.name = name then { argument with value } else argument }

namespace Coercion

variable {types : TypeSystem} {vars : Variables} {node : Field} {name : String}
  {literal other : Literal} {definition : InputValueDefinition}

/-! ### Arguments -/

/-- An argument is found where it was, with its literal changed. -/
theorem find?_withArgument (node : Field) (name : String) (literal : Literal)
    (p : Argument → Bool) (hp : ∀ argument : Argument, p { argument with value := literal } = p argument) :
    (node.withArgument name literal).arguments.find? p =
      (node.arguments.find? p).map fun argument =>
        if argument.name = name then { argument with value := literal } else argument := by
  rw [FieldNode.withArgument, List.find?_map]
  congr 2
  funext argument
  rw [Function.comp_apply]
  split
  · exact hp argument
  · rfl

/-- Another argument is coerced as before. -/
theorem coerceArgument_withArgument_of_ne (h : definition.name ≠ name) :
    coerceArgument types (node.withArgument name literal) vars definition =
      coerceArgument types node vars definition := by
  -- Only the literal of the other argument is replaced, so what is written for this one is the
  -- same.
  have hfind : Argument.find? (node.withArgument name literal).arguments definition.name =
      Argument.find? node.arguments definition.name := by
    rw [Argument.find?, find?_withArgument node name literal _ fun _ => rfl, Argument.find?]
    cases hfound : node.arguments.find? fun argument => argument.name == definition.name with
    | none => rfl
    | some argument =>
      have hname : argument.name = definition.name := eq_of_beq (List.find?_some hfound :)
      rw [Option.map_some, if_neg (hname ▸ h)]
  rw [coerceArgument, coerceArgument, hfind]
  rfl

/-- A written argument is coerced as its literal is. -/
theorem coerceArgument_withArgument {value : Value}
    (hwritten : (Argument.find? node.arguments definition.name).isSome)
    (h : coerceLiteral types vars true literal definition.type [] = .ok (some value)) :
    coerceArgument types (node.withArgument definition.name literal) vars definition =
      .ok (some value) := by
  obtain ⟨argument, hfound⟩ := Option.isSome_iff_exists.mp hwritten
  have hname : argument.name = definition.name := eq_of_beq (List.find?_some hfound :)
  -- It is found as before, since its name stays, and now has the literal.
  have hfind : Argument.find? (node.withArgument definition.name literal).arguments definition.name =
      some { argument with value := literal } := by
    rw [Argument.find?] at hfound ⊢
    rw [find?_withArgument node definition.name literal _ fun _ => rfl, hfound, Option.map_some,
      if_pos hname]
  rw [coerceArgument, hfind]
  dsimp only
  rw [h]
  rfl

/-- An argument that is not written is coerced as before. -/
theorem coerceArgument_withArgument_of_none
    (hwritten : Argument.find? node.arguments definition.name = none) :
    coerceArgument types (node.withArgument definition.name literal) vars definition =
      coerceArgument types node vars definition := by
  have hfind : Argument.find? (node.withArgument definition.name literal).arguments definition.name =
      none := by
    rw [Argument.find?] at hwritten ⊢
    rw [find?_withArgument node definition.name literal _ fun _ => rfl, hwritten]
    rfl
  rw [coerceArgument, coerceArgument, hfind, hwritten]
  rfl

theorem coerceDeclared_congr {node' : Field} {definitions : List InputValueDefinition}
    (h : ∀ definition ∈ definitions, coerceArgument types node vars definition =
      coerceArgument types node' vars definition) :
    coerceDeclared types node vars definitions = coerceDeclared types node' vars definitions := by
  induction definitions with
  | nil => rw [coerceDeclared, coerceDeclared]
  | cons definition rest ih =>
    rw [coerceDeclared, coerceDeclared, h definition List.mem_cons_self,
      ih fun other hmem => h other (List.mem_cons_of_mem _ hmem)]

/-- **Two ways to write an argument that are coerced to one value lead to the same arguments**, or to
the same error about another argument. -/
theorem coerceArguments_withArgument {field : FieldDefinition} {ty : TypeRef} {value : Value}
    (htype : ∀ definition ∈ Entries.values field.arguments.entries, definition.name = name →
      definition.type = ty)
    (h : coerceLiteral types vars true literal ty [] = .ok (some value))
    (h' : coerceLiteral types vars true other ty [] = .ok (some value)) :
    coerceArguments types field (node.withArgument name literal) vars =
      coerceArguments types field (node.withArgument name other) vars := by
  have hdeclared : coerceDeclared types (node.withArgument name literal) vars
      (Entries.values field.arguments.entries) = coerceDeclared types (node.withArgument name other) vars
        (Entries.values field.arguments.entries) := by
    refine coerceDeclared_congr fun definition hmem => ?_
    by_cases hname : definition.name = name
    · subst hname
      obtain rfl := htype definition hmem rfl
      cases hwritten : Argument.find? node.arguments definition.name with
      | none =>
        rw [coerceArgument_withArgument_of_none hwritten,
          coerceArgument_withArgument_of_none hwritten]
      | some argument =>
        have hsome : (Argument.find? node.arguments definition.name).isSome := by rw [hwritten]; rfl
        rw [coerceArgument_withArgument hsome h, coerceArgument_withArgument hsome h']
    · rw [coerceArgument_withArgument_of_ne hname, coerceArgument_withArgument_of_ne hname]
  -- An argument that is not declared is so whatever is written for it.
  rw [coerceArguments, coerceArguments, hdeclared, find?_withArgument node name literal _ fun _ => rfl,
    find?_withArgument node name other _ fun _ => rfl]
  cases node.arguments.find? fun argument => !Entries.contains field.arguments.entries argument.name with
  | none => rfl
  | some argument =>
    rw [Option.map_some, Option.map_some]
    dsimp only
    split <;> rfl

/-! ### Variables -/

/-- A variable is its value, if that may stand at its type. -/
theorem coerceLiteral_var {ty : TypeRef} {value : Value} (hvalue : vars.get? name = some value)
    (hnull : value = .null → ty.isNonNull = false) :
    coerceLiteral types vars true (.var name) ty [] = .ok (some value) := by
  rw [coerceLiteral, coerceVariable, hvalue]
  cases value with
  | null => exact if_neg (by rw [hnull rfl]; exact Bool.false_ne_true)
  | _ => rfl

/-- A declaration of an input type makes a value of what is coerced to one, be it given by the request or
the default. -/
theorem coerceDeclaredVariable_of_or {declared : VariableDefinition} {ty : TypeRef}
    {raw : Option Value} {given value : Value} (htype : TypeRef.ofSyntax? declared.type = some ty)
    (hinput : types.namedTypeIs TypeDefinition.isInput ty)
    (hgiven : raw.or declared.fallback = some given) (h : coerceConstant types given ty [] = .ok value) :
    coerceDeclaredVariable types declared raw = .ok (.value value) := by
  rw [coerceDeclaredVariable, htype]
  dsimp only
  rw [hinput, if_neg (by decide), hgiven]
  dsimp only
  rw [h]

theorem coerceDeclaredVariable_of_coerceConstant {declared : VariableDefinition} {ty : TypeRef}
    {given value : Value} (htype : TypeRef.ofSyntax? declared.type = some ty)
    (hinput : types.namedTypeIs TypeDefinition.isInput ty)
    (h : coerceConstant types given ty [] = .ok value) :
    coerceDeclaredVariable types declared (some given) = .ok (.value value) :=
  coerceDeclaredVariable_of_or htype hinput Option.some_or h

end Coercion

/-- **A literal and a variable of its value are the same to a resolver.** A declaration of the type
gives the value of the literal the value that the literal is coerced to, so it never is the reason why a
request is refused; and where the variables of the request are accepted, a field that takes the variable
has the arguments of one that takes the literal. -/
theorem literal_as_variable {schema : Schema} (htypes : schema.types.ReadsAlike)
    (hlimit : 0 < schema.config.maxVariableErrors)
    {declared : VariableDefinition} {ty : TypeRef}
    (htype : TypeRef.ofSyntax? declared.type = some ty)
    (hinput : schema.types.namedTypeIs TypeDefinition.isInput ty)
    {literal : Literal} (hconst : literal.IsConstant) {vars : Variables} {value : Value}
    (hvalue : Coercion.coerceLiteral schema.types vars true literal ty [] = .ok (some value))
    {definitions : List VariableDefinition} {raw : Variables}
    (hnames : (definitions.map VariableDefinition.name).Nodup) (hmem : declared ∈ definitions)
    (hraw : raw.get? declared.name = some literal.constant) :
    Coercion.coerceDeclaredVariable schema.types declared (some literal.constant) =
        .ok (.value value) ∧
      ((∀ other ∈ definitions, other ≠ declared → Coercion.IsAccepted schema.types raw other) →
        ∃ coerced, Coercion.coerceVariables schema.types schema.config.maxVariableErrors definitions
          raw = .ok (.ok coerced)) ∧
      ∀ coerced, Coercion.coerceVariables schema.types schema.config.maxVariableErrors definitions
          raw = .ok (.ok coerced) →
        coerced.get? declared.name = some value ∧
          (∀ (definition : InputValueDefinition) (node : Field), definition.type = ty →
            (Argument.find? node.arguments definition.name).isSome →
            Coercion.coerceArgument schema.types
              (node.withArgument definition.name (.var declared.name)) coerced definition =
                .ok (some value)) ∧
          ∀ (field : FieldDefinition) (node : Field) (name : String),
            (∀ definition ∈ Entries.values field.arguments.entries, definition.name = name →
              definition.type = ty) →
            Coercion.coerceArguments schema.types field
                (node.withArgument name (.var declared.name)) coerced =
              Coercion.coerceArguments schema.types field (node.withArgument name literal)
                coerced := by
  have hdeclared := Coercion.coerceDeclaredVariable_of_coerceConstant htype hinput
    (Coercion.coerceConstant_of_coerceLiteral htypes hconst hvalue)
  refine ⟨hdeclared, fun hothers => ?_, fun coerced haccepted => ?_⟩
  -- The declaration itself is accepted, since the value that it is given is coerced.
  · have haccepted : ∀ other ∈ definitions, Coercion.IsAccepted schema.types raw other := by
      intro other hother
      by_cases heq : other = declared
      · subst heq
        exact ⟨.value value, by rw [hraw, hdeclared], rfl⟩
      · exact hothers other hother heq
    obtain ⟨coerced, hcoerced⟩ := Coercion.exists_of_isAccepted hlimit hnames haccepted
    exact ⟨coerced, Coercion.coerceVariables_eq_ok_iff.mpr hcoerced⟩
  -- The variable has the value of the literal, and a position that takes the literal takes the
  -- value.
  · have hget := Coercion.get?_of_coerceEachVariable hnames hmem hraw hdeclared
      (Coercion.coerceVariables_eq_ok_iff.mp haccepted)
    have hvar : Coercion.coerceLiteral schema.types coerced true (.var declared.name) ty [] =
        -- If the value is null, the literal is null itself, so null is allowed there.
        .ok (some value) :=
      Coercion.coerceLiteral_var hget fun hnull =>
        Coercion.isNonNull_of_coerceLiteral htypes hconst (hnull ▸ hvalue)
    refine ⟨hget, ?_, ?_⟩
    · rintro definition node rfl hwritten
      exact Coercion.coerceArgument_withArgument hwritten hvar
    · intro field node name hfield
      -- The literal has no variables in it, so it has the same value with those that are coerced
      -- here.
      rw [Coercion.coerceLiteral_congr vars coerced literal true hconst] at hvalue
      exact Coercion.coerceArguments_withArgument hfield hvar hvalue

/-! ### A filter -/

namespace FilterSample

/-- A required colour, some tags and a limit. -/
def filter : InputObjectType where
  name := "Filter"
  description := none
  fields := .ofList [⟨"color", none, .namedNonNull "Color", none⟩,
    ⟨"tags", none, ⟨"String", (Wrapping.required.wrapList?).getD .nullable⟩, none⟩,
    ⟨"limit", none, .named "Int", some (.int 10)⟩]

/-- Colours, which resolvers see as numbers. -/
def color : EnumType where
  name := "Color"
  description := none
  values := .ofList [⟨"RED", none, .int 1⟩, ⟨"GREEN", none, .int 2⟩]

/-- A list of filters as the argument of a field. -/
def query : ObjectType where
  name := "Query"
  description := none
  fields := .ofList [⟨"count", none, .named "Int",
    .ofList [⟨"by", none, ⟨"Filter", (Wrapping.required.wrapList?).getD .nullable⟩, none⟩]⟩]
  interfaces := []
  isTypeOf := none

/-- The types above, for requests whose variables may have that many errors. -/
def builder (limit : Nat) : SchemaBuilder :=
  ((((SchemaBuilder.new "Query" none none).register ⟨.object query, .none⟩).register
    ⟨.inputObject filter, .none⟩).register ⟨.enum color, .none⟩).withConfig
      { Config.standard with maxVariableErrors := limit }

/-- The schema that the builder makes. -/
def schema (limit : Nat) : Schema :=
  (builder limit).finish.toOption.getD ⟨⟨[], "", none, none, []⟩, [], .standard⟩

theorem finish_eq (limit : Nat) : (builder limit).finish = .ok (schema limit) := rfl

/-- A single filter with a single tag, and without a limit. -/
def literal : Literal := .object [("tags", .string "new"), ("color", .enum "RED")]

/-- A variable of the type of the argument. -/
def declared : VariableDefinition where
  name := "by"
  type := .list (.named "Filter" true) false
  directives := []
  fallback := none
  location := ⟨1, 8⟩

/-- The request gives it the value of the literal. -/
def raw : Variables := Variables.empty.insert "by" literal.constant

/-- What resolvers see of the literal. -/
def value : Value := .list [.object [("color", .int 1), ("tags", .list [.string "new"]),
  ("limit", .int 10)]]

theorem values_eq : Entries.values (schema 50).types.types = [.scalar .int, .scalar .float,
    .scalar .string, .scalar .boolean, .scalar .id, .object query, .inputObject filter,
    .enum color] := rfl

theorem readsAlike : (schema 50).types.ReadsAlike where
  scalars scalar hmem := by
    have hbuiltin : scalar ∈ ScalarType.builtins := by
      -- One case for each condition: the scalars are those of the engine, and no value of the enum
      -- is null.
      simpa [values_eq, ScalarType.builtins] using hmem
    exact .inl (List.mem_append_left _ hbuiltin)
  enums type hmem := by
    obtain rfl : type = color := by simpa [values_eq] using hmem
    intro known hknown
    have hvalues : Entries.values color.values.entries =
        [⟨"RED", none, .int 1⟩, ⟨"GREEN", none, .int 2⟩] := rfl
    rw [hvalues] at hknown
    rcases List.mem_pair.mp hknown with rfl | rfl <;> exact Value.noConfusion

theorem coerceLiteral_eq (limit : Nat) : Coercion.coerceLiteral (schema limit).types .empty true
    literal ⟨"Filter", (Wrapping.required.wrapList?).getD .nullable⟩ [] = .ok (some value) := rfl

end FilterSample

/-- A filter that is written without a list and without the limit is a list of one filter with the
default of ten, both as a literal and as a variable. -/
theorem literal_as_variable_sample :
    ∃ coerced, Coercion.coerceVariables (FilterSample.schema 50).types 50 [FilterSample.declared]
        FilterSample.raw = .ok (.ok coerced) ∧
      coerced.get? "by" = some FilterSample.value ∧
      ∀ (field : FieldDefinition) (node : Field) (name : String),
        (∀ definition ∈ Entries.values field.arguments.entries, definition.name = name →
          definition.type = ⟨"Filter", (Wrapping.required.wrapList?).getD .nullable⟩) →
        Coercion.coerceArguments (FilterSample.schema 50).types field
            (node.withArgument name (.var "by")) coerced =
          Coercion.coerceArguments (FilterSample.schema 50).types field
            (node.withArgument name FilterSample.literal) coerced := by
  -- What is asked of the request: a literal without variables, one declaration, and its value.
  have hconst : FilterSample.literal.IsConstant := ⟨by decide, trivial, trivial, trivial⟩
  have hnames : ([FilterSample.declared].map VariableDefinition.name).Nodup :=
    List.nodup_singleton "by"
  have hraw : FilterSample.raw.get? FilterSample.declared.name =
    some FilterSample.literal.constant := rfl
  obtain ⟨-, haccepted, hsame⟩ := literal_as_variable FilterSample.readsAlike (by decide) rfl rfl
    hconst (FilterSample.coerceLiteral_eq 50) hnames (List.mem_singleton_self _) hraw
  obtain ⟨coerced, hcoerced⟩ := haccepted fun other hmem hne =>
    absurd (List.mem_singleton.mp hmem) hne
  obtain ⟨hget, -, harguments⟩ := hsame coerced hcoerced
  exact ⟨coerced, hcoerced, hget, harguments⟩

/-- **Without room for any error every variable is refused**, even one with the value of a literal that
is accepted. -/
theorem variable_refused_without_limit :
    (FilterSample.builder 0).finish = .ok (FilterSample.schema 0) ∧
      Coercion.coerceLiteral (FilterSample.schema 0).types .empty true FilterSample.literal
        ⟨"Filter", (Wrapping.required.wrapList?).getD .nullable⟩ [] =
          .ok (some FilterSample.value) ∧
      TypeRef.ofSyntax? FilterSample.declared.type =
        some ⟨"Filter", (Wrapping.required.wrapList?).getD .nullable⟩ ∧
      FilterSample.raw.get? "by" = some FilterSample.literal.constant ∧
      Coercion.coerceVariables (FilterSample.schema 0).types
        (FilterSample.schema 0).config.maxVariableErrors [FilterSample.declared] FilterSample.raw =
          .ok (.error [Coercion.tooManyVariableErrors]) :=
  ⟨FilterSample.finish_eq 0, FilterSample.coerceLiteral_eq 0, rfl, rfl, rfl⟩

end GraphQL
