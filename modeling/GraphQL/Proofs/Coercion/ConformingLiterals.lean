import GraphQL.Proofs.Coercion.ConformingValues
import GraphQL.Proofs.Coercion.Literals

/-!
# Coerced literals conform to their types

A literal may hold variables at any depth. It is coerced to a value of its type if every variable in
it is declared with the type of the position that it is used at, or with the nullable version of
that.

* `Literal.VariablesFit` — what is asked of the variables of a literal, position by position, and
  `IsDeclaredFor` for what is asked of one of them;
* `Coercion.variablesConform` — the variables of a request are as they are asked to be;
* `Coercion.coerceLiteralFields_filledBy` — object literals, by induction on the declared fields;
* `Coercion.coerceLiteral_conforms` — literals of every form, by recursion on them;
* `Coercion.unset_of_coerceLiteral` — a literal is coerced to nothing only if it is a variable
  without a value.
-/

namespace GraphQL

/-! ### Positions of variables -/

namespace Literal

mutual

/-- Every variable of the literal fits the type of the position that it is used at. There are
positions inside of a list for a list type, and inside of an object for an input object type;
whatever else is inside of a literal is left to a scalar. -/
def VariablesFit (types : TypeSystem) (fits : String → TypeRef → Prop) : Literal → TypeRef → Prop
  | .var name, ty => fits name ty
  | .list items, ty => ∀ item, ty.itemType? = some item → ItemsFit types fits items item
  | .object entries, ty =>
      ∀ target, types.namedType? ty = some (.inputObject target) →
        EntriesFit types fits entries target
  | .null, _ | .bool _, _ | .number _, _ | .string _, _ | .enum _, _ => True

/-- `VariablesFit` of every item. -/
def ItemsFit (types : TypeSystem) (fits : String → TypeRef → Prop) : List Literal → TypeRef → Prop
  | [], _ => True
  | item :: rest, ty => item.VariablesFit types fits ty ∧ ItemsFit types fits rest ty

/-- `VariablesFit` of every entry, at the type of its field. -/
def EntriesFit (types : TypeSystem) (fits : String → TypeRef → Prop) :
    List (String × Literal) → InputObjectType → Prop
  | [], _ => True
  | (key, literal) :: rest, target =>
      (∀ field ∈ Entries.values target.fields.entries, field.name = key →
        literal.VariablesFit types fits field.type) ∧ EntriesFit types fits rest target

end

end Literal

/-- Every variable in the arguments of a field fits the type of the position that it is used at. -/
def FieldNode.VariablesFit (types : TypeSystem) (fits : String → TypeRef → Prop)
    (definitions : List InputValueDefinition) (node : Field) : Prop :=
  ∀ definition ∈ definitions, ∀ argument,
    Argument.find? node.arguments definition.name = some argument →
      argument.value.VariablesFit types fits definition.type

/-- The variable of the name is declared with the type, or with the nullable version of it. -/
def IsDeclaredFor (declarations : List VariableDefinition) (name : String) (ty : TypeRef) : Prop :=
  ∀ declared ∈ declarations, declared.name = name →
    ∃ nullable, TypeRef.ofSyntax? declared.type = some nullable ∧
      (ty = nullable ∨ ty = nullable.withNonNull)

namespace Coercion

variable {types : TypeSystem} {vars : Variables} {fits : String → TypeRef → Prop}

/-- The variables have no values but null and such of the types that they fit. -/
def VariablesConform (types : TypeSystem) (fits : String → TypeRef → Prop) (vars : Variables) : Prop :=
  ∀ name ty, fits name ty → ∀ value, vars.get? name = some value → value ≠ .null →
    ConformsToInput types ty value

/-- **Variables that are declared for their positions conform there.** -/
theorem variablesConform {limit : Nat} {declarations : List VariableDefinition} {raw : Variables}
    (h : coerceVariables types limit declarations raw = .ok (.ok vars)) :
    VariablesConform types (IsDeclaredFor declarations) vars := by
  intro name ty hfits value hvalue hnull
  obtain ⟨declared, hmem, hname, nullable, htype, hconforms⟩ := conforms_of_coerceVariables h hvalue
  obtain ⟨nullable', htype', hty⟩ := hfits declared hmem hname
  -- The position and the value are read off the same written type.
  obtain rfl : nullable = nullable' := Option.some.inj (htype.symm.trans htype')
  rcases hty with rfl | rfl
  · exact hconforms
  · -- A written type does not have too many lists.
    have hdepth : ¬ Wrapping.maxLists < declared.type.listDepth := by
      rw [← TypeRef.ofSyntax?_eq_none_iff, htype]
      exact Option.some_ne_none nullable
    have hcount : nullable.wrapping.listCount ≤ Wrapping.maxLists := by
      rw [TypeRef.listCount_ofSyntax? htype]
      exact Nat.le_of_not_lt hdepth
    exact hconforms.ofNullable hcount hnull

end Coercion

/-! ### Literals -/

/-- The coercion gives only values of the type, if it is asked for that. -/
def DeferredLiteral.ConformsAt (types : TypeSystem) (literal : DeferredLiteral) (ty : TypeRef) : Prop :=
  ∀ path value, literal ty path = .ok (some value) → ConformsToInput types ty value

namespace Coercion

section Literals

variable {types : TypeSystem} {vars : Variables} {fits : String → TypeRef → Prop}

/-- A variable stands for its value, unless that is a null that the position excludes. -/
theorem coerceVariable_conforms (hvars : VariablesConform types fits vars) {name : String}
    {ty : TypeRef} (hfits : fits name ty) :
    DeferredLiteral.ConformsAt types (coerceVariable vars name) ty := by
  intro path value h
  rw [coerceVariable] at h
  -- An unset variable, a null that is excluded here, a null that is not, and any other value.
  split at h
  · split at h
    · exact absurd h fault_ne_ok
    next hnullable =>
      obtain rfl := Option.some.inj (Except.ok.inj h)
      exact .null (Bool.eq_false_iff.mpr hnullable)
  next hnull =>
    have hvalue : vars.get? name = some value := Except.ok.inj h
    refine hvars name ty hfits value hvalue fun heq => ?_
    exact hnull (heq ▸ hvalue)

/-- One declared field of an object literal: what is written for it comes first. -/
theorem coerceLiteralFields_cons {object : InputObjectType} {path : ValuePath}
    {given : Entries DeferredLiteral} {field : InputValueDefinition}
    {fields : List InputValueDefinition} :
    coerceLiteralFields types object path given (field :: fields) =
      ((match Entries.get? given field.name with
        | some literal => literal field.type (.field field.name :: path)
        | none => .ok none) >>= fun written =>
          match written, field.fallback with
          | some value, _ => do
              return (field.name, value) :: (← coerceLiteralFields types object path given fields)
          | none, some fallback => do
              let value ← coerceConstant types fallback field.type (.field field.name :: path)
              return (field.name, value) :: (← coerceLiteralFields types object path given fields)
          | none, none =>
              if field.type.isNonNull then missingField object field path
              else coerceLiteralFields types object path given fields) := by
  rw [coerceLiteralFields]
  cases Entries.get? given field.name <;> rfl

/-- The declared fields of an object literal. The induction is on them: each has the value that is
written for it, or its default, or is left out. -/
theorem coerceLiteralFields_filledBy {object : InputObjectType} {path : ValuePath}
    {given : Entries DeferredLiteral} {fields : List InputValueDefinition} {entries : Entries Value}
    (hgiven : ∀ field ∈ fields, ∀ literal, Entries.get? given field.name = some literal →
      literal.ConformsAt types field.type)
    (h : coerceLiteralFields types object path given fields = .ok entries) :
    FilledBy (ConformsToField types) fields entries := by
  induction fields generalizing entries with
  | nil =>
    obtain rfl := Except.ok.inj h
    exact .nil
  | cons field fields ih =>
    have hlater := fun other hmem => hgiven other (List.mem_cons_of_mem field hmem)
    rw [coerceLiteralFields_cons] at h
    -- What is found for the field decides first, then its default, then whether it may be absent.
    obtain ⟨found, hfound, h⟩ := coerced_bind_eq_ok.mp h
    cases found with
    | some value =>
      have hconforms : ConformsToInput types field.type value := by
        -- Something has been written for the field, since a value has come of it.
        cases hliteral : Entries.get? given field.name with
        | none =>
          rw [hliteral] at hfound
          exact absurd (Except.ok.inj hfound) (by simp)
        | some literal =>
          rw [hliteral] at hfound
          exact hgiven field List.mem_cons_self literal hliteral _ _ hfound
      obtain ⟨rest, hrest, h⟩ := coerced_bind_eq_ok.mp h
      obtain rfl := Except.ok.inj h
      exact .present (.value hconforms) (ih hlater hrest)
    | none =>
      cases hfallback : field.fallback with
      | some fallback =>
        rw [hfallback] at h
        obtain ⟨value, hvalue, h⟩ := coerced_bind_eq_ok.mp h
        obtain ⟨rest, hrest, h⟩ := coerced_bind_eq_ok.mp h
        obtain rfl := Except.ok.inj h
        have hconforms := coerceConstant_conforms fallback _ _ _ hvalue
        exact .present (.value hconforms) (ih hlater hrest)
      | none =>
        rw [hfallback] at h
        dsimp only at h
        split at h
        · exact absurd h fault_ne_ok
        next hnullable =>
          exact .absent (.absent (Bool.eq_false_iff.mpr hnullable) hfallback) (ih hlater h)

/-- Literals of a named type. The cases are those of what the name stands for: a scalar parses the
literal, an enum type looks up its name, and an object is filled field by field. Everything else is
a fault, so nothing has to be shown for it. -/
theorem coerceLiteralNamed_conforms {literal : Literal}
    (hliteral : ∀ lookup, literal.toValue lookup ≠ .null)
    {given : Option (Entries DeferredLiteral)} {ty : TypeRef}
    (hgiven : ∀ entries object, given = some entries →
      types.namedType? ty = some (.inputObject object) →
      ∀ field ∈ Entries.values object.fields.entries, ∀ deferred,
        Entries.get? entries field.name = some deferred → deferred.ConformsAt types field.type)
    {path : ValuePath} {value : Value}
    (h : coerceLiteralNamed types vars literal given ty path = .ok (some value)) :
    ConformsToNamed types ty.name value := by
  rw [coerceLiteralNamed] at h
  -- What a named type stands for decides; a literal that is coerced at all is never left out.
  split at h
  next scalar htype =>
    obtain ⟨result, hresult, hvalue⟩ := coerced_map_eq_ok.mp h
    obtain rfl := Option.some.inj hvalue
    exact .scalar htype (hliteral _) (.inr (coerceScalar_eq_ok.mp hresult))
  next type htype =>
    split at h
    next name =>
      obtain ⟨result, hresult, hvalue⟩ := coerced_map_eq_ok.mp h
      obtain rfl := Option.some.inj hvalue
      exact .enum htype (coerceEnumName_eq_ok.mp hresult)
    next => exact absurd h fault_ne_ok
  next object htype =>
    cases given with
    | none => exact absurd h fault_ne_ok
    | some entries =>
      obtain ⟨result, hresult, hvalue⟩ := coerced_map_eq_ok.mp h
      obtain rfl := Option.some.inj hvalue
      -- The entries of the literal are those of the declared fields, each of them under its own
      -- name.
      dsimp only [coerceLiteralObject] at hresult
      split at hresult
      · exact absurd hresult fault_ne_ok
      · obtain ⟨fields, hfields, rfl⟩ := coerced_map_eq_ok.mp hresult
        have hfilled := coerceLiteralFields_filledBy (hgiven entries object rfl htype) hfields
        rw [Entries.ofPairs_eq_of_sublist object.fields hfilled.keys_sublist]
        exact .object htype hfilled
  next => exact absurd h fault_ne_ok

/-- A literal that stands for itself or for a list of one. -/
theorem coerceLiteralSingle_conforms {lenient : Bool} {kind : ValueKind} {named : DeferredLiteral}
    {ty : TypeRef}
    (hnamed : ∀ path value, named ty path = .ok (some value) → ConformsToNamed types ty.name value) :
    DeferredLiteral.ConformsAt types (coerceLiteralSingle lenient kind named) ty := by
  intro path value h
  -- A type of lists accepts a single literal in place of a list of one, if that is allowed.
  rw [coerceLiteralSingle] at h
  split at h
  next hlist =>
    split at h
    next hlenient =>
      obtain ⟨result, hresult, hvalue⟩ := coerced_map_eq_ok.mp h
      obtain ⟨only, rfl, rfl⟩ := Option.map_eq_some_iff.mp hvalue
      exact .wrapInLists (hnamed _ _ hresult)
    next => exact absurd h fault_ne_ok
  next hlist => exact .named (Bool.eq_false_iff.mpr hlist) (hnamed _ _ h)

/-- Literals that are neither null nor composite. -/
theorem coerceLiteralLeaf_conforms {literal : Literal}
    (hliteral : ∀ lookup, literal.toValue lookup ≠ .null) (lenient : Bool) (kind : ValueKind)
    (ty : TypeRef) :
    DeferredLiteral.ConformsAt types
      (coerceLiteralSingle lenient kind (coerceLiteralNamed types vars literal none)) ty :=
  coerceLiteralSingle_conforms fun _ _ h =>
    coerceLiteralNamed_conforms hliteral (fun _ _ hgiven => absurd hgiven (by simp)) h

mutual

/-- **Coerced literals conform to their type**, with the values of the variables in them. The
recursion is that of the literal; a variable brings in a value that has been coerced before, so it
has to fit where it is written, while all other literals conform for what they are. -/
theorem coerceLiteral_conforms (hvars : VariablesConform types fits vars) :
    ∀ (literal : Literal) (lenient : Bool) (ty : TypeRef), literal.VariablesFit types fits ty →
      DeferredLiteral.ConformsAt types (coerceLiteral types vars lenient literal) ty
  | .var name, lenient, ty, hfits => by
    intro path value h
    rw [coerceLiteral] at h
    exact coerceVariable_conforms hvars hfits path value h
  | .null, lenient, ty, _ => by
    intro path value h
    rw [coerceLiteral] at h
    split at h
    next => exact absurd h fault_ne_ok
    next hnullable =>
      obtain rfl := Option.some.inj (Except.ok.inj h)
      exact .null (Bool.eq_false_iff.mpr hnullable)
  | .list items, lenient, ty, hfits => by
    intro path value h
    rw [coerceLiteral] at h
    split at h
    next item hitem =>
      obtain ⟨values, hvalues, hvalue⟩ := coerced_map_eq_ok.mp h
      obtain rfl := Option.some.inj hvalue
      rw [Literal.VariablesFit] at hfits
      exact .list hitem (coerceLiteralItems_conforms hvars items (hfits item hitem) hvalues)
    next hitem =>
      -- Only a type without lists has no items.
      have hlist : ty.isList = false := by
        rw [TypeRef.itemType?, Option.map_eq_none_iff] at hitem
        rw [TypeRef.isList, Bool.eq_false_iff, Ne, ← Wrapping.withoutList?_isSome_iff, hitem]
        exact Bool.false_ne_true
      have hnone : ∀ entries object, (none : Option (Entries DeferredLiteral)) = some entries →
          types.namedType? ty = some (.inputObject object) →
          ∀ field ∈ Entries.values object.fields.entries, ∀ deferred,
            Entries.get? entries field.name = some deferred → deferred.ConformsAt types field.type :=
        fun _ _ hgiven => absurd hgiven (by simp)
      exact .named hlist
        (coerceLiteralNamed_conforms (fun _ => by simp [Literal.toValue]) hnone h)
  | .object entries, lenient, ty, hfits => by
    intro path value h
    rw [coerceLiteral] at h
    rw [Literal.VariablesFit] at hfits
    have hne : ∀ lookup, (Literal.object entries).toValue lookup ≠ .null :=
      fun _ => by simp [Literal.toValue]
    refine coerceLiteralSingle_conforms (fun _ _ => coerceLiteralNamed_conforms hne ?_) path value h
    -- An entry is coerced against the type of its field, where its variables fit by assumption.
    intro given object hgiven htype field hfield deferred hdeferred
    rw [← Option.some.inj hgiven, deferLiterals_eq_map,
      Entries.get?_map (coerceLiteral types vars true)] at hdeferred
    obtain ⟨literal, hliteral, rfl⟩ := Option.map_eq_some_iff.mp hdeferred
    exact coerceEntries_conform hvars entries (hfits object htype) _ (Entries.get?_mem hliteral)
      field hfield rfl
  | .bool b, lenient, ty, _ => coerceLiteralLeaf_conforms (fun _ => Value.noConfusion) lenient _ ty
  | .number n, lenient, ty, _ => coerceLiteralLeaf_conforms (fun _ => Value.noConfusion) lenient _ ty
  | .string s, lenient, ty, _ => coerceLiteralLeaf_conforms (fun _ => Value.noConfusion) lenient _ ty
  | .enum name, lenient, ty, _ => coerceLiteralLeaf_conforms (fun _ => Value.noConfusion) lenient _ ty

/-- The items of a list literal, one by one. Unlike anywhere else a variable without a value does
not leave out its item: the list keeps its length, and the item is null if its type allows that. -/
theorem coerceLiteralItems_conforms (hvars : VariablesConform types fits vars) :
    ∀ (items : List Literal) {ty : TypeRef} (_ : Literal.ItemsFit types fits items ty)
      {path : ValuePath} {index : Nat} {values : List Value},
      coerceLiteralItems types vars items ty path index = .ok values →
        ∀ value ∈ values, ConformsToInput types ty value
  | [], _, _, _, _, values => by
    intro h value hmem
    obtain rfl := Except.ok.inj h
    exact absurd hmem List.not_mem_nil
  | item :: rest, ty, hfits, path, index, values => by
    intro h value hmem
    rw [coerceLiteralItems] at h
    rw [Literal.ItemsFit] at hfits
    obtain ⟨found, hfound, h⟩ := coerced_bind_eq_ok.mp h
    -- An item gives its list one value: its own, or null for a variable without one.
    obtain ⟨first, others, hfirst, hothers, rfl⟩ : ∃ first others, ConformsToInput types ty first ∧
        coerceLiteralItems types vars rest ty path (index + 1) = .ok others ∧
          values = first :: others := by
      cases found with
      | some coerced =>
        obtain ⟨first, hfirst, h⟩ := coerced_bind_eq_ok.mp h
        obtain ⟨others, hothers, h⟩ := coerced_bind_eq_ok.mp h
        obtain rfl := Except.ok.inj hfirst
        have hconforms := coerceLiteral_conforms hvars item false ty hfits.1 _ _ hfound
        exact ⟨coerced, others, hconforms, hothers, (Except.ok.inj h).symm⟩
      | none =>
        -- An absent item is null, where that is allowed.
        dsimp only at h
        split at h
        · exact absurd h (by simp [bind, Except.bind, Coerced.fault])
        next hnullable =>
          obtain ⟨first, hfirst, h⟩ := coerced_bind_eq_ok.mp h
          obtain ⟨others, hothers, h⟩ := coerced_bind_eq_ok.mp h
          obtain rfl := Except.ok.inj hfirst
          have hconforms : ConformsToInput types ty .null := .null (Bool.eq_false_iff.mpr hnullable)
          exact ⟨.null, others, hconforms, hothers, (Except.ok.inj h).symm⟩
    rcases List.mem_cons.mp hmem with rfl | hmem
    · exact hfirst
    · exact coerceLiteralItems_conforms hvars rest hfits.2 hothers value hmem

theorem coerceEntries_conform (hvars : VariablesConform types fits vars) :
    ∀ (entries : List (String × Literal)) {object : InputObjectType}
      (_ : Literal.EntriesFit types fits entries object), ∀ entry ∈ entries,
      ∀ field ∈ Entries.values object.fields.entries, field.name = entry.1 →
        DeferredLiteral.ConformsAt types (coerceLiteral types vars true entry.2) field.type
  | [], _, _, _, hmem => absurd hmem List.not_mem_nil
  | (key, literal) :: rest, object, hfits, entry, hmem => by
    intro field hfield hname
    rw [Literal.EntriesFit] at hfits
    rcases List.mem_cons.mp hmem with rfl | hmem
    · exact coerceLiteral_conforms hvars literal true field.type (hfits.1 field hfield hname)
    · exact coerceEntries_conform hvars rest hfits.2 entry hmem field hfield hname

end

end Literals

/-! ### Literals without a value -/

section Unset

variable {types : TypeSystem} {vars : Variables}

/-- A literal that is not a variable has a value of its type or is at fault. -/
theorem coerceLiteralNamed_ne_none {literal : Literal} {given : Option (Entries DeferredLiteral)}
    {ty : TypeRef} {path : ValuePath} :
    coerceLiteralNamed types vars literal given ty path ≠ .ok none := by
  -- Whatever a named type makes of a literal, it is a value.
  have hsome : ∀ coerced : Coerced Value, coerced.map some ≠ .ok none := by
    intro coerced h
    obtain ⟨value, -, hvalue⟩ := coerced_map_eq_ok.mp h
    exact absurd hvalue (by simp)
  rw [coerceLiteralNamed]
  split
  · exact hsome _
  · split
    · exact hsome _
    · exact fault_ne_ok
  · split
    · exact hsome _
    · exact fault_ne_ok
  · exact fault_ne_ok

theorem coerceLiteralSingle_ne_none {literal : Literal} {given : Option (Entries DeferredLiteral)}
    {lenient : Bool} {kind : ValueKind} {ty : TypeRef} {path : ValuePath} :
    coerceLiteralSingle lenient kind (coerceLiteralNamed types vars literal given) ty path ≠
      .ok none := by
  intro h
  rw [coerceLiteralSingle] at h
  split at h
  · split at h
    · obtain ⟨value, hvalue, hnone⟩ := coerced_map_eq_ok.mp h
      exact coerceLiteralNamed_ne_none (Option.map_eq_none_iff.mp hnone ▸ hvalue)
    · exact absurd h fault_ne_ok
  · exact coerceLiteralNamed_ne_none h

/-- **Only a variable without a value is coerced to nothing.** This is what an absent field and an
omitted argument rest on: no other literal is left out, so whatever else is written is a value or a
fault. -/
theorem unset_of_coerceLiteral {literal : Literal} {lenient : Bool} {ty : TypeRef} {path : ValuePath}
    (h : coerceLiteral types vars lenient literal ty path = .ok none) :
    ∃ unset, literal = .var unset ∧ vars.get? unset = none := by
  -- Every literal that is not a variable is a value or a fault, whatever its type.
  cases literal with
  | var name =>
    refine ⟨name, rfl, ?_⟩
    rw [coerceLiteral, coerceVariable] at h
    split at h
    · split at h
      · exact absurd h fault_ne_ok
      · exact absurd (Except.ok.inj h) (by simp)
    · exact Except.ok.inj h
  | null =>
    rw [coerceLiteral] at h
    split at h
    · exact absurd h fault_ne_ok
    · exact absurd (Except.ok.inj h) (by simp)
  | list items =>
    rw [coerceLiteral] at h
    split at h
    · obtain ⟨value, -, hvalue⟩ := coerced_map_eq_ok.mp h
      exact absurd hvalue (by simp)
    · exact absurd h coerceLiteralNamed_ne_none
  | object entries =>
    rw [coerceLiteral] at h
    exact absurd h coerceLiteralSingle_ne_none
  | bool b => exact absurd h (@coerceLiteralSingle_ne_none types vars (.bool b) none lenient _ ty path)
  | number n => exact absurd h (@coerceLiteralSingle_ne_none types vars (.number n) none lenient _ ty path)
  | string s => exact absurd h (@coerceLiteralSingle_ne_none types vars (.string s) none lenient _ ty path)
  | enum name => exact absurd h (@coerceLiteralSingle_ne_none types vars (.enum name) none lenient _ ty path)

end Unset

end Coercion

end GraphQL
