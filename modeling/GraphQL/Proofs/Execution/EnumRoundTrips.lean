import GraphQL.Proofs.Coercion.ConformingArguments
import GraphQL.Proofs.Coercion.EnumNames
import GraphQL.Proofs.Coercion.LiteralAsVariable
import GraphQL.Proofs.Execution.Answer
import GraphQL.Proofs.Execution.Scheduling
import GraphQL.Proofs.Schema.InvertibleEnums

/-!
# Names of enum types there and back

A field takes names of an enum type, in any lists, and its resolver returns what it is given. If the internal
values of the type tell its names apart, the names come back in the same places, whether they are written
in the operation or sent with the request.

Nests of names are described by their depth, in the literals that clients write, in the values that
resolvers see, and in the constants that are written back. Each direction is an induction on the
depth, where the step is one list of the type and the base one name. That two names have different
internal values is used only there.

* `Completion.completeLayers_of_isNest` — the way back, through the completion of values;
* `Coercion.exists_coerceArguments` — the way there, through the coercion of arguments;
* `enum_names_round_trip` — there and back.
-/

namespace GraphQL

variable {type : EnumType} {depth : Nat} {literal : Literal}

/-! ### The way back -/

theorem Coroutine.joinAll_map_finish {ε α : Type} (results : List α) :
    joinAll (results.map fun result => (.finish [] result : Coroutine ε α)) = .finish [] results := by
  induction results with
  | nil => rfl
  | cons result rest ih => rw [List.map_cons, joinAll, ih]; rfl

theorem errorsOf_map_ok {α : Type} (values : List α) : errorsOf (values.map .ok) = [] := by
  refine List.filterMap_eq_nil_iff.mpr fun result hmem => ?_
  obtain ⟨value, -, rfl⟩ := List.mem_map.mp hmem
  rfl

theorem valuesOf_map_ok {α : Type} (values : List α) : valuesOf (values.map .ok) = values := by
  rw [valuesOf, List.filterMap_map]
  exact List.filterMap_some

namespace Completion

variable {ctx : ExecutionContext} {select : Select} {info : ResolveInfo}

/-- Items without errors are gathered at once. -/
theorem gatherItems_map_ok (nonNull : Bool) (values : List Value) :
    gatherItems nonNull (values.map .ok) = .finish [] (.ok (.list values)) := by
  cases nonNull with
  -- Items that are not null are all required, and all of them are there.
  | true =>
    rw [gatherItems, if_pos rfl, gather, errorsOf_map_ok]
    dsimp only
    rw [valuesOf_map_ok]
    rfl
  | false =>
    -- Items that may be null are taken as they are.
    have hvalues : (values.map .ok).map Completed.valueOrNull = values := by
      rw [List.map_map]
      exact List.map_id values
    rw [gatherItems, if_neg Bool.false_ne_true, errorsOf_map_ok, hvalues]
    rfl

/-- An internal value is completed to its name. -/
theorem completeNamed_of_parse? (h : type.IsInvertible) {typeName : String}
    (htype : ctx.schema.types.type? typeName = some (.enum type)) {name : String} {value : Value}
    (hparse : type.parse? name = some value) (path : QueryPath) :
    completeNamed ctx select typeName info path (.plain value) = .finish [] (.ok (.enum name)) := by
  have hserialize : (FieldValue.plain value).toValue?.bind type.serialize? = some name :=
    type.serialize?_of_parse? h hparse
  rw [completeNamed, htype]
  dsimp only
  rw [completeEnum, hserialize]

/-- **What resolvers see of names is completed to the names.** The induction is on the depth of the
nest, which is the number of list wrappers that are left. Internal values are not null and are there
at once, so nothing is waited for and nothing fails. -/
theorem completeLayers_of_isNest (h : type.IsInvertible) {typeName : String}
    (htype : ctx.schema.types.type? typeName = some (.enum type)) (innerRequired : Bool)
    (hnest : type.IsNest depth literal) {wrappers : List ListWrapping} (hlength : wrappers.length = depth)
    (path : QueryPath) :
    completeLayers ctx select typeName innerRequired info wrappers path
      (.plain (type.internal depth literal)) = .finish [] (.ok literal.constant) := by
  induction depth generalizing literal wrappers path with
  | zero =>
    -- No list is left: the value is the internal value of a name, and is not null, as names of such
    -- a type have other internal values.
    obtain rfl := List.length_eq_zero_iff.mp hlength
    obtain ⟨name, value, rfl, hparse, hinternal⟩ := EnumType.exists_name_of_isNest hnest
    have hnull : (FieldValue.plain value).isNull = false := by
      cases value with
      | null => exact absurd rfl (type.ne_null_of_parse? h hparse)
      | _ => rfl
    rw [hinternal, completeLayers, hnull, if_neg Bool.false_ne_true,
      completeNamed_of_parse? h htype hparse]
    rfl
  | succ depth ih =>
    obtain ⟨wrapper, inner, rfl⟩ := List.exists_cons_of_length_eq_add_one hlength
    obtain ⟨items, rfl, hitems⟩ := EnumType.exists_items_of_isNest hnest
    -- Every item is there at once, so the list is as well.
    have hnull : (FieldValue.plain (type.internal (depth + 1) (.list items))).isNull = false := rfl
    have hraw : items? (.plain (type.internal (depth + 1) (.list items))) =
        some (items.map fun item => .plain (type.internal depth item)) := by
      rw [EnumType.internal]
      exact congrArg some List.map_map
    have hcompleted : ((items.map fun item => FieldValue.plain (type.internal depth item)).mapIdx
        fun index item => completeLayers ctx select typeName innerRequired info inner
          (path.index index) item) =
        (items.map fun item => Except.ok item.constant).map fun result => .finish [] result := by
      refine List.ext_getElem (by simp) fun index hindex hindex' => ?_
      rw [List.getElem_mapIdx, List.getElem_map, List.getElem_map, List.getElem_map]
      exact ih (hitems _ (List.getElem_mem _)) (Nat.succ.inj hlength) _
    -- The constants of the items are what is gathered.
    have hconstants : (items.map fun item => (Except.ok item.constant : Completed)) =
        (items.map Literal.constant).map .ok := List.map_map.symm
    rw [completeLayers, hnull, if_neg Bool.false_ne_true, hraw]
    dsimp only
    rw [hcompleted, Coroutine.joinAll_map_finish, hconstants, Literal.constant_list]
    exact congrArg (Coroutine.prepend []) (gatherItems_map_ok _ _)

end Completion

/-! ### The way there -/

/-- What an argument is given: names as a literal, or a variable that has these names from the request or
as its default. -/
inductive ExecutionContext.Gives (ctx : ExecutionContext) (type : EnumType) (depth : Nat)
    (literal : Literal) : Literal → Prop
  | written : Gives ctx type depth literal literal
  | sent {limit : Nat} {definitions : List VariableDefinition} {raw : Variables}
      {declared : VariableDefinition} {ty : TypeRef} {given : Value}
      (hvars : Coercion.coerceVariables ctx.schema.types limit definitions raw = .ok (.ok ctx.vars))
      (hnames : (definitions.map VariableDefinition.name).Nodup) (hmem : declared ∈ definitions)
      (htype : TypeRef.ofSyntax? declared.type = some ty)
      (hty : ty.IsNestOf ctx.schema.types type depth)
      (hgiven : (raw.get? declared.name).or declared.fallback = some given)
      (hsame : Value.same given literal.constant = true) :
      Gives ctx type depth literal (.var declared.name)

namespace Coercion

variable {types : TypeSystem} {vars : Variables} {node : Field} {argument : InputValueDefinition}

theorem internal_ne_null (h : type.IsInvertible) (hnest : type.IsNest depth literal) :
    type.internal depth literal ≠ .null := by
  cases depth with
  | zero =>
    obtain ⟨name, value, rfl, hparse, hinternal⟩ := EnumType.exists_name_of_isNest hnest
    rw [hinternal]
    exact type.ne_null_of_parse? h hparse
  | succ depth =>
    obtain ⟨items, rfl, -⟩ := EnumType.exists_items_of_isNest hnest
    exact Value.noConfusion

/-- **Names that are given are coerced to their internal values**, whichever way they are given. -/
theorem coerceLiteral_of_gives {ctx : ExecutionContext} (h : type.IsInvertible)
    (hnest : type.IsNest depth literal) {written : Literal} (hgives : ctx.Gives type depth literal written)
    {ty : TypeRef} (hty : ty.IsNestOf ctx.schema.types type depth) :
    coerceLiteral ctx.schema.types ctx.vars true written ty [] =
      .ok (some (type.internal depth literal)) := by
  cases hgives with
  | written => exact coerceLiteral_of_isNest hnest hty true []
  | @sent limit definitions raw declared variableType given hvars hnames hmem htype hvariable hgiven
      hsame =>
    -- The variable was coerced before the operation was executed, and names are never null.
    have hinput : ctx.schema.types.namedTypeIs TypeDefinition.isInput variableType := by
      rw [TypeSystem.namedTypeIs, hvariable.named]
      rfl
    have hdeclared := coerceDeclaredVariable_of_or htype hinput hgiven
      (coerceConstant_of_isNest hnest hsame hvariable [])
    have hget := get?_of_coerceDeclaredVariable hnames hmem hdeclared (coerceVariables_eq_ok_iff.mp hvars)
    exact coerceLiteral_var hget fun hnull => absurd hnull (internal_ne_null h hnest)

theorem coerceArgument_of_coerceLiteral {written : Argument} {value : Value}
    (hwritten : Argument.find? node.arguments argument.name = some written)
    (h : coerceLiteral types vars true written.value argument.type [] = .ok (some value)) :
    coerceArgument types node vars argument = .ok (some value) := by
  rw [coerceArgument, hwritten]
  dsimp only
  rw [h]
  rfl

/-- The arguments of a field of which one has a known value. The induction is on the definitions:
none of the others fails, so the field has arguments, and what is found under the name is the value,
whichever definition of that name it is from. -/
theorem exists_coerceDeclared {name : String} {value : Value} {definitions : List InputValueDefinition}
    (hvalue : ∀ definition ∈ definitions, definition.name = name →
      coerceArgument types node vars definition = .ok (some value))
    (hothers : ∀ definition ∈ definitions, definition.name ≠ name →
      ∃ other, coerceArgument types node vars definition = .ok other) :
    ∃ arguments, coerceDeclared types node vars definitions = .ok arguments ∧
      (Entries.keys arguments).Sublist (definitions.map InputValueDefinition.name) ∧
      (name ∈ definitions.map InputValueDefinition.name → Entries.get? arguments name = some value) := by
  induction definitions with
  | nil => exact ⟨[], rfl, .slnil, fun hmem => absurd hmem List.not_mem_nil⟩
  | cons definition rest ih =>
    rw [List.forall_mem_cons] at hvalue hothers
    -- None of the other definitions fails, so that the first one decides what is found.
    obtain ⟨arguments, harguments, hkeys, hget⟩ := ih hvalue.2 hothers.2
    rw [List.map_cons, coerceDeclared, harguments]
    by_cases hname : definition.name = name
    -- This is the definition asked for: its value is put in front, and is found first.
    · refine ⟨(definition.name, value) :: arguments, by rw [hvalue.1 hname]; rfl, hkeys.cons_cons _,
        fun _ => ?_⟩
      rw [Entries.get?, if_pos hname]
    -- Another definition: whether it gives a value or none, the entry asked for is one of the rest.
    · obtain ⟨other, hother⟩ := hothers.1 hname
      have hrest : name ∈ definition.name :: rest.map InputValueDefinition.name →
          name ∈ rest.map InputValueDefinition.name :=
        fun hmem => (List.mem_cons.mp hmem).resolve_left fun heq => hname heq.symm
      rw [hother]
      cases other with
      | none => exact ⟨arguments, rfl, hkeys.cons _, fun hmem => hget (hrest hmem)⟩
      | some found =>
        refine ⟨(definition.name, found) :: arguments, rfl, hkeys.cons_cons _, fun hmem => ?_⟩
        rw [Entries.get?, if_neg hname]
        exact hget (hrest hmem)

/-- The arguments of a field can be coerced if each of them can, and an argument has its value among
them. -/
theorem exists_coerceArguments {definition : FieldDefinition} {name : String} {value : Value}
    (hdeclared : ∀ written ∈ node.arguments,
      Entries.contains definition.arguments.entries written.name = true)
    (hname : name ∈ (Entries.values definition.arguments.entries).map InputValueDefinition.name)
    (hvalue : ∀ argument ∈ Entries.values definition.arguments.entries, argument.name = name →
      coerceArgument types node vars argument = .ok (some value))
    (hothers : ∀ argument ∈ Entries.values definition.arguments.entries, argument.name ≠ name →
      ∃ other, coerceArgument types node vars argument = .ok other) :
    ∃ arguments, coerceArguments types definition node vars = .ok arguments ∧
      Entries.get? arguments name = some value := by
  have hknown : node.arguments.find? (fun argument =>
      !Entries.contains definition.arguments.entries argument.name) = none :=
    List.find?_eq_none.mpr fun written hmem => by simp [hdeclared written hmem]
  obtain ⟨arguments, harguments, hkeys, hget⟩ := exists_coerceDeclared hvalue hothers
  refine ⟨arguments, ?_, hget hname⟩
  rw [coerceArguments, hknown]
  dsimp only
  rw [harguments, Except.map, Entries.ofPairs_eq_of_sublist definition.arguments hkeys]

end Coercion

/-! ### There and back -/

/-- The resolver ends with the value of an argument, at once or later. -/
def Resolver.ReturnsArgument (resolver : Resolver) (name : String) : Prop :=
  ∀ resolverContext value, Entries.get? resolverContext.arguments name = some value →
    resolver.ending resolverContext = .ok (.ok (.plain value))

/-- A field of an object type whose resolver, with the interceptors around it, returns one of its
arguments. The other arguments do not matter as long as they can be coerced. -/
structure ExecutionContext.ReturnsArgument (ctx : ExecutionContext) (object : ObjectType) (atRoot : Bool)
    (node : Field) (definition : FieldDefinition) (name : String) : Prop where
  notTypename : node.name ≠ "__typename"
  field : object.field? node.name = some definition
  declared : ∀ written ∈ node.arguments, Entries.contains definition.arguments.entries written.name = true
  others : ∀ argument ∈ Entries.values definition.arguments.entries, argument.name ≠ name →
    ∃ other, Coercion.coerceArgument ctx.schema.types node ctx.vars argument = .ok other
  returns : (ctx.middleware.wrap object.name node.name
    (ctx.baseResolver object.name node.name atRoot)).ReturnsArgument name

namespace ExecutionContext

variable {ctx : ExecutionContext}

/-- A resolver that ends with a value is one call that ends with it. -/
theorem outcome_invoke_of_ending {resolver : Resolver} {resolverContext : ResolverContext}
    {result : ResolverResult} (h : resolver.ending resolverContext = .ok result) :
    (ctx.invoke resolver resolverContext).outcome = .ok result := by
  rw [outcome_invoke, h]
  split <;> rfl

/-- **A field that returns names gives them back**, with one call and no error. The three parts are
put together here: the arguments are the internal values, the resolver returns them whatever
interceptors pass on, and they are completed to the names. -/
theorem executeField_yields_names (h : type.IsInvertible) (hnest : type.IsNest depth literal)
    {object : ObjectType} {path : QueryPath} {node : Field} {definition : FieldDefinition} {name : String}
    (hfield : ctx.ReturnsArgument object path.isEmpty node definition name)
    (hresult : definition.type.IsNestOf ctx.schema.types type depth)
    (hname : name ∈ (Entries.values definition.arguments.entries).map InputValueDefinition.name)
    (htypes : ∀ argument ∈ Entries.values definition.arguments.entries, argument.name = name →
      argument.type.IsNestOf ctx.schema.types type depth)
    {written : Argument} (hwritten : Argument.find? node.arguments name = some written)
    (hgives : ctx.Gives type depth literal written.value)
    (select : Select) (parent : FieldValue) (key : String) (others : List Field) :
    ∃ arguments, Entries.get? arguments name = some (type.internal depth literal) ∧
      Yields (ctx.executeField select object parent path key (node :: others)) (.ok literal.constant) []
        [⟨path.field key object.name, parent, arguments⟩] := by
  -- Whichever way the names are given, they are seen by the resolver as their internal values.
  have hvalue : ∀ argument ∈ Entries.values definition.arguments.entries, argument.name = name →
      Coercion.coerceArgument ctx.schema.types node ctx.vars argument =
        .ok (some (type.internal depth literal)) := by
    intro argument hmem heq
    exact Coercion.coerceArgument_of_coerceLiteral (heq ▸ hwritten)
      (Coercion.coerceLiteral_of_gives h hnest hgives (htypes argument hmem heq))
  obtain ⟨arguments, harguments, hget⟩ :=
    Coercion.exists_coerceArguments hfield.declared hname hvalue hfield.others
  refine ⟨arguments, hget, ?_⟩
  rw [executeField_of_field? hfield.notTypename hfield.field, executeDefined, harguments]
  dsimp only
  -- The resolver returns its argument, and so does the chain of middleware around it.
  have houtcome : ∀ info : ResolveInfo, (ctx.invoke _ ⟨parent, arguments, info, ctx.context⟩).outcome =
      .ok (.ok (.plain (type.internal depth literal))) :=
    fun _ => outcome_invoke_of_ending (hfield.returns _ _ hget)
  obtain ⟨events, hquiet, hends⟩ := invoke_ends (houtcome (ctx.resolveInfo object definition node.name
    (node :: others) (path.field key object.name)))
  refine Yields.call_bind ⟨path.field key object.name, parent, arguments⟩ hends hquiet ?_
  -- The field has the type of the argument, so that its result is completed as the nest of names.
  have hcompleted : ∀ info : ResolveInfo, info.returnType = definition.type →
      Completion.completeValue ctx select info (.plain (type.internal depth literal)) =
        .finish [] (.ok literal.constant) := by
    intro info hinfo
    rw [Completion.completeValue, hinfo]
    refine Completion.completeLayers_of_isNest h hresult.named _ hnest ?_ _
    rw [List.length_reverse, Wrapping.layers, Wrapping.length_listWrappings, hresult.lists]
  dsimp only
  rw [hcompleted _ rfl]
  exact .value literal.constant

end ExecutionContext

/-- **Names of an enum type come back**, if its internal values tell them apart.

* A field whose resolver returns its argument gives names back as they are given, in whatever lists they are
  and whichever way they are given. It calls its resolver once, with the internal values of the names, and
  nothing fails.
* A value is serialized to a name exactly if it is the internal value of the name, or if it is the text of
  the name and no internal value.
* What is serialized to a name is output as that name, which is declared; all else is an error. -/
theorem enum_names_round_trip {type : EnumType} (h : type.IsInvertible) :
    (∀ (ctx : ExecutionContext) (depth : Nat) (literal : Literal), type.IsNest depth literal →
      ∀ (object : ObjectType) (path : QueryPath) (node : Field) (definition : FieldDefinition)
        (name : String),
        ctx.ReturnsArgument object path.isEmpty node definition name →
        definition.type.IsNestOf ctx.schema.types type depth →
        name ∈ (Entries.values definition.arguments.entries).map InputValueDefinition.name →
        (∀ argument ∈ Entries.values definition.arguments.entries, argument.name = name →
          argument.type.IsNestOf ctx.schema.types type depth) →
        ∀ written : Argument, Argument.find? node.arguments name = some written →
        ctx.Gives type depth literal written.value →
        ∀ (select : Select) (parent : FieldValue) (key : String) (others : List Field),
          ∃ arguments, Entries.get? arguments name = some (type.internal depth literal) ∧
            Yields (ctx.executeField select object parent path key (node :: others))
              (.ok literal.constant) [] [⟨path.field key object.name, parent, arguments⟩]) ∧
      (∀ (value : Value) (name : String), type.serialize? value = some name ↔
        (∃ internal, type.parse? name = some internal ∧ Value.same internal value = true) ∨
          ((∀ other internal, type.parse? other = some internal → ¬Value.same internal value = true) ∧
            (type.parse? name).isSome = true ∧ (value = .enum name ∨ value = .string name))) ∧
      ∀ (info : ResolveInfo) (path : QueryPath) (raw : FieldValue),
        (∀ name, raw.toValue?.bind type.serialize? = some name → (type.parse? name).isSome = true ∧
          Completion.completeEnum type info path raw = .finish [] (.ok (.enum name))) ∧
        (raw.toValue?.bind type.serialize? = none → ∃ error, error.code = .valueCompletionError ∧
          Completion.completeEnum type info path raw = Completed.fail error) := by
  refine ⟨?_, fun value name => type.serialize?_eq_some_iff h, fun info path raw => ⟨fun name hname => ?_,
    fun hnone => ?_⟩⟩
  · intro ctx depth literal hnest object path node definition name hfield hresult hname htypes written
      hwritten hgives select parent key others
    exact ExecutionContext.executeField_yields_names h hnest hfield hresult hname htypes hwritten hgives
      select parent key others
  -- The name is written out as it is, as it is declared.
  · obtain ⟨value, -, hserialize⟩ := Option.bind_eq_some_iff.mp hname
    exact ⟨type.isSome_parse?_of_serialize? h hserialize, by rw [Completion.completeEnum, hname]⟩
  -- Nothing is written out: the completion fails at the field.
  · rw [Completion.completeEnum, hnone]
    exact ⟨info.located path (.new _ .valueCompletionError), rfl, rfl⟩

/-! ### Names that are internal values of others -/

namespace ShadowedNames

/-- Colours. Resolvers see one of them as the name of the other. -/
def color : EnumType where
  name := "Color"
  description := none
  values := .ofList [⟨"RED", none, .string "GREEN"⟩, ⟨"GREEN", none, .int 2⟩]

theorem isInvertible : color.IsInvertible := by
  have hvalues : ∀ known ∈ Entries.values color.values.entries,
      known = ⟨"RED", none, .string "GREEN"⟩ ∨ known = ⟨"GREEN", none, .int 2⟩ :=
    fun known hknown => List.mem_pair.mp hknown
  -- The internal values are a text and a number, and differ.
  refine ⟨fun known hknown => ?_, fun known hknown => ?_, fun known hknown other hother hsame => ?_⟩
  · rcases hvalues known hknown with rfl | rfl
    · exact .string _
    · exact .number rfl
  · rcases hvalues known hknown with rfl | rfl <;> exact Value.noConfusion
  · rcases hvalues known hknown with rfl | rfl <;> rcases hvalues other hother with rfl | rfl <;>
      first | rfl | cases hsame

/-- Lists of colours. -/
def colors : TypeRef := ⟨"Color", (Wrapping.nullable.wrapList?).getD .nullable⟩

/-- A field that takes colours and gives colours. -/
def same : FieldDefinition := ⟨"same", none, colors, .ofList [⟨"of", none, colors, none⟩]⟩

def query : ObjectType := ⟨"Query", none, .ofList [same], [], none⟩

/-- The resolver returns the colours that it is given. -/
def resolver : Resolver := fun resolverContext =>
  .returned [] (.ok (.plain ((Entries.get? resolverContext.arguments "of").getD .null)))

def schema : Schema where
  types := ⟨[("Query", .object query), ("Color", .enum color)], "Query", none, none, []⟩
  hooks := [("Query", ⟨[("same", ⟨some resolver, none⟩)], none⟩)]
  config := .standard

/-- Both colours. -/
def both : Literal := .list [.enum "RED", .enum "GREEN"]

def node : Field where
  label := none
  name := "same"
  arguments := [⟨"of", ⟨1, 8⟩, both, ⟨1, 12⟩⟩]
  directives := []
  selections := []
  location := ⟨1, 3⟩

def ctx : ExecutionContext where
  schema := schema
  fragments := []
  operation := ⟨.query, [], [], [.field node], ⟨1, 1⟩⟩
  rootValue := .null
  context := none
  vars := .empty
  fieldResolver := .standard
  typeResolver := .standard
  middleware := .empty
  isEvent := false

theorem colors_isNestOf : colors.IsNestOf schema.types color 1 := ⟨rfl, by decide⟩

theorem returnsArgument : ctx.ReturnsArgument query true node same "of" where
  notTypename := by decide
  field := rfl
  declared := by decide
  others argument hmem hname := by
    obtain rfl : argument = ⟨"of", none, colors, none⟩ := List.mem_singleton.mp hmem
    exact absurd rfl hname
  returns resolverContext value hvalue := by
    change Except.ok (Except.ok (FieldValue.plain
      ((Entries.get? resolverContext.arguments "of").getD .null))) = _
    rw [hvalue]
    rfl

end ShadowedNames

/-- Both colours come back, although one of them is seen as the name of the other. The text of that name
is the first colour. -/
theorem enum_names_round_trip_sample :
    (∃ arguments, Yields (ShadowedNames.ctx.executeField (fun _ _ _ _ => .finish [] (.ok .null))
        ShadowedNames.query .null .empty "same" [ShadowedNames.node])
      (.ok (.list [.enum "RED", .enum "GREEN"])) []
      [⟨QueryPath.empty.field "same" "Query", .null, arguments⟩]) ∧
      ShadowedNames.color.serialize? (.enum "GREEN") = some "RED" := by
  obtain ⟨hfields, hserialize, -⟩ := enum_names_round_trip ShadowedNames.isInvertible
  -- Both items of the list are declared names.
  have hnest : ShadowedNames.color.IsNest 1 ShadowedNames.both := by
    intro item hitem
    rcases List.mem_pair.mp hitem with rfl | rfl <;> rfl
  -- The only argument is the list.
  have htypes : ∀ argument ∈ Entries.values ShadowedNames.same.arguments.entries, argument.name = "of" →
      argument.type.IsNestOf ShadowedNames.schema.types ShadowedNames.color 1 := by
    intro argument hmem _
    obtain rfl : argument = ⟨"of", none, ShadowedNames.colors, none⟩ := List.mem_singleton.mp hmem
    exact ShadowedNames.colors_isNestOf
  obtain ⟨arguments, -, hyields⟩ := hfields ShadowedNames.ctx 1 ShadowedNames.both hnest
    ShadowedNames.query .empty ShadowedNames.node ShadowedNames.same "of" ShadowedNames.returnsArgument
    ShadowedNames.colors_isNestOf (List.mem_singleton_self _) htypes _ rfl .written
    (fun _ _ _ _ => .finish [] (.ok .null)) .null "same" []
  exact ⟨⟨arguments, hyields⟩, (hserialize _ _).mpr (.inl ⟨.string "GREEN", rfl, rfl⟩)⟩

end GraphQL
