import GraphQL.Proofs.Coercion.ConformingLiterals
import GraphQL.Proofs.Coercion.FaultPlaces
import GraphQL.Proofs.Coercion.RecurringDefaults
import GraphQL.Proofs.Value.Equality

/-!
# Sub-values of an input

The value or literal that is coerced has sub-values: the items of lists, and what the fields of input
objects have, which is the default of a field that is absent or bound to a variable without a value. Each
is coerced to a type of its own. An error is found by following the place it reports: every step leads to
a sub-value, with everything before it accepted, and the last one is what is rejected.

* `SubValue` — constants and literals with their types, `SubValue.coerce`, and their parts:
  `SubValue.items`, `SubValue.field?`;
* `SubValue.Enters` — the step from a sub-value to one of its parts, everything before which is accepted;
* `SubValue.Rejects` — a sub-value is rejected for what it is itself;
* `exists_item_of_fails` — a list fails at one item;
* `exists_field_of_fails` — fields that are coerced one after the other fail at one of them;
* `coerceFields_fails`, `coerceLiteralFields_eq` — which both coercions of input objects do.
-/

namespace GraphQL

open Coerced

/-- Only a type that is no list has no items. -/
theorem TypeRef.itemType?_eq_none_iff {ty : TypeRef} : ty.itemType? = none ↔ ¬ ty.isList = true := by
  rw [TypeRef.itemType?, Option.map_eq_none_iff, TypeRef.isList, ← Wrapping.withoutList?_isSome_iff,
    Option.not_isSome_iff_eq_none]

theorem Value.exists_entries {value : Value} (h : value.kind = .object) :
    ∃ entries, value = .object entries := by
  cases value with
  | object entries => exact ⟨entries, rfl⟩
  | number n => cases n <;> cases h
  | _ => cases h

theorem Literal.exists_entries {literal : Literal} (h : literal.kind = .object) :
    ∃ entries, literal = .object entries := by
  cases literal with
  | object entries => exact ⟨entries, rfl⟩
  | number n => cases n <;> cases h
  | _ => cases h

namespace Coercion

/-- The defaults of the fields of input objects are values as the engine has them. -/
def DefaultsWellFormed (types : TypeSystem) : Prop :=
  ∀ object, .inputObject object ∈ Entries.values types.types →
    ∀ field ∈ Entries.values object.fields.entries, ∀ fallback,
      field.fallback = some fallback → fallback.IsWellFormed

/-- What is coerced to a type: a constant or a literal. It is lenient unless it is an item of a list, which
stands for no list of its own and is null where it is missing. -/
inductive SubValue where
  | ofValue (lenient : Bool) (value : Value) (ty : TypeRef)
  | ofLiteral (lenient : Bool) (literal : Literal) (ty : TypeRef)

/-- An item of a list; where it is missing it is null. -/
def coerceLiteralItem (types : TypeSystem) (vars : Variables) (literal : Literal) (ty : TypeRef)
    (path : ValuePath) : Coerced Value := do
  match ← coerceLiteral types vars false literal ty path with
  | some value => .ok value
  | none => if ty.isNonNull then .fault (.unexpectedNull ty) path else .ok .null

namespace SubValue

/-- The type that is expected. -/
def type : SubValue → TypeRef
  | .ofValue _ _ ty | .ofLiteral _ _ ty => ty

def lenient : SubValue → Bool
  | .ofValue lenient _ _ | .ofLiteral lenient _ _ => lenient

/-- What a message calls its form; a variable counts as null. -/
def kind : SubValue → ValueKind
  | .ofValue _ value _ => value.kind
  | .ofLiteral _ literal _ => literal.kind

/-- Whether it is null, as it is written or as the value of a variable. -/
def IsNull (vars : Variables) : SubValue → Prop
  | .ofValue _ .null _ | .ofLiteral _ .null _ => True
  | .ofLiteral lenient (.var name) _ =>
      vars.get? name = some .null ∨ lenient = false ∧ vars.get? name = none
  | _ => False

/-- The name that an enum type is given. -/
def enumName? : SubValue → Option String
  | .ofValue _ (.enum name) _ | .ofValue _ (.string name) _ | .ofLiteral _ (.enum name) _ => some name
  | _ => none

/-- The value that a scalar is given, with the values of variables in it. -/
def raw (vars : Variables) : SubValue → Value
  | .ofValue _ value _ => value
  | .ofLiteral _ literal _ => literal.toValue fun name => (vars.get? name).getD .null

/-- How a scalar reads it. -/
def parser (scalar : ScalarType) : SubValue → Value → Except ScalarError Value
  | .ofValue .. => scalar.parseValue
  | .ofLiteral .. => scalar.parseLiteral

/-- The keys of an object. -/
def keys : SubValue → List String
  | .ofValue _ (.object entries) _ => Entries.keys entries
  | .ofLiteral _ (.object entries) _ => Entries.keys entries
  | _ => []

/-- The items of a list, if the type has items. -/
def items : SubValue → List SubValue
  | .ofValue _ (.list items) ty =>
      match ty.itemType? with
      | some item => items.map (.ofValue false · item)
      | none => []
  | .ofLiteral _ (.list items) ty =>
      match ty.itemType? with
      | some item => items.map (.ofLiteral false · item)
      | none => []
  | _ => []

/-- What is given for a field of an object, which a variable without a value is not. -/
def given? (vars : Variables) (field : InputValueDefinition) : SubValue → Option SubValue
  | .ofValue _ (.object entries) _ =>
      (Entries.get? entries field.name).map (.ofValue true · field.type)
  | .ofLiteral _ (.object entries) _ =>
      match Entries.get? entries field.name with
      | some (.var name) =>
          if (vars.get? name).isSome then some (.ofLiteral true (.var name) field.type) else none
      | some literal => some (.ofLiteral true literal field.type)
      | none => none
  | _ => none

/-- What a field of an object has: what is given for it, or its default. -/
def field? (vars : Variables) (sub : SubValue) (field : InputValueDefinition) : Option SubValue :=
  (sub.given? vars field).or (field.fallback.map (.ofValue true · field.type))

/-- Coerces a sub-value; the result is absent for a variable without a value. -/
def coerce (types : TypeSystem) (vars : Variables) : SubValue → ValuePath → Coerced (Option Value)
  | .ofValue lenient value ty, path =>
      (coerceValue types (coerceConstant types) lenient value ty path).map some
  | .ofLiteral true literal ty, path => coerceLiteral types vars true literal ty path
  | .ofLiteral false literal ty, path => (coerceLiteralItem types vars literal ty path).map some

/-- Coerces what a field has. That a required field has nothing is a fault of its object. -/
def coerceField (types : TypeSystem) (vars : Variables) (object : InputObjectType) (sub : SubValue)
    (path : ValuePath) (field : InputValueDefinition) : Coerced (Option Value) :=
  match sub.field? vars field with
  | some part => part.coerce types vars (.field field.name :: path)
  | none =>
      if field.type.isNonNull then
        .fault (.missingRequiredField object.name field.name field.type) path
      else .ok none

/-- It is taken for a value of its named type: it is not null, and if a list is expected it is no list and
may stand for one. -/
def IsNamed (sub : SubValue) : Prop :=
  sub.kind ≠ .null ∧ (sub.type.isList = true → sub.kind ≠ .list ∧ sub.lenient = true)

/-- It is an object for the fields of an input object. -/
def IsObjectOf (types : TypeSystem) (object : InputObjectType) (sub : SubValue) : Prop :=
  sub.kind = .object ∧ sub.IsNamed ∧ types.namedType? sub.type = some (.inputObject object)

/-- Something is coerced without an error. -/
def Succeeds {α : Type} (result : Coerced α) : Prop := ∃ value, result = .ok value

/-- One step on the way to a part, by the index of an item or the name of a field. The items of smaller
index and the fields that are declared earlier are accepted. -/
inductive Enters (types : TypeSystem) (vars : Variables) :
    ValuePath × SubValue → ValuePath × SubValue → Prop
  | item {path : ValuePath} {sub part : SubValue} {index : Nat} (hpart : sub.items[index]? = some part)
      (hearlier : ∀ earlier < index, ∀ other, sub.items[earlier]? = some other →
        Succeeds (other.coerce types vars (.index earlier :: path))) :
      Enters types vars (path, sub) (.index index :: path, part)
  | field {path : ValuePath} {sub part : SubValue} {object : InputObjectType}
      {before after : List InputValueDefinition} {field : InputValueDefinition}
      (hobject : sub.IsObjectOf types object)
      (hfields : Entries.values object.fields.entries = before ++ field :: after)
      (hpart : sub.field? vars field = some part)
      (hearlier : ∀ other ∈ before, Succeeds (sub.coerceField types vars object path other)) :
      Enters types vars (path, sub) (.field field.name :: path, part)

/-- The sub-value at a place is rejected, not one of its parts. An object is rejected if it has a key that
is no field, or nothing for a field that is required, the fields declared before which are accepted. -/
inductive Rejects (types : TypeSystem) (vars : Variables) (path : ValuePath) :
    SubValue → InputFault → Prop
  | null {sub : SubValue} (hnull : sub.IsNull vars) (hrequired : sub.type.isNonNull = true) :
      Rejects types vars path sub (.unexpectedNull sub.type)
  | single {sub : SubValue} (hnull : sub.kind ≠ .null) (hsingle : sub.kind ≠ .list)
      (hlist : sub.type.isList = true) (hitem : sub.lenient = false) :
      Rejects types vars path sub (.missingList sub.kind sub.type)
  | scalar {sub : SubValue} {scalar : ScalarType} {error : ScalarError} (hnamed : sub.IsNamed)
      (htype : types.namedType? sub.type = some (.scalar scalar))
      (hparsed : sub.parser scalar (sub.raw vars) = .error error) :
      Rejects types vars path sub (.ofScalarError scalar.name (sub.raw vars) error)
  | noEnumName {sub : SubValue} {type : EnumType} (hnamed : sub.IsNamed)
      (htype : types.namedType? sub.type = some (.enum type)) (hname : sub.enumName? = none) :
      Rejects types vars path sub (.incorrectEnumValueType type.name sub.kind)
  | enumName {sub : SubValue} {type : EnumType} {name : String} (hnamed : sub.IsNamed)
      (htype : types.namedType? sub.type = some (.enum type)) (hname : sub.enumName? = some name)
      (hunknown : type.parse? name = none) :
      Rejects types vars path sub (.unknownEnumValue type.name name)
  | noObject {sub : SubValue} {object : InputObjectType} (hnamed : sub.IsNamed)
      (htype : types.namedType? sub.type = some (.inputObject object)) (hkind : sub.kind ≠ .object) :
      Rejects types vars path sub (.missingObject object.name sub.kind)
  | unknownField {sub : SubValue} {object : InputObjectType} {name : String}
      (hobject : sub.IsObjectOf types object) (hname : name ∈ sub.keys)
      (hunknown : name ∉ (Entries.values object.fields.entries).map InputValueDefinition.name) :
      Rejects types vars path sub (.unknownInputField object.name name)
  | missingField {sub : SubValue} {object : InputObjectType} {before after : List InputValueDefinition}
      {field : InputValueDefinition} (hobject : sub.IsObjectOf types object)
      (hfields : Entries.values object.fields.entries = before ++ field :: after)
      (hearlier : ∀ other ∈ before, Succeeds (sub.coerceField types vars object path other))
      (hnone : sub.field? vars field = none) (hrequired : field.type.isNonNull = true) :
      Rejects types vars path sub (.missingRequiredField object.name field.name field.type)

end SubValue

open SubValue

variable {types : TypeSystem} {vars : Variables} {path : ValuePath} {error : InputValueError}

/-! ### Lists -/

/-- A list that is coerced item by item fails at one item, and the items before it have values. The
induction is on the items. -/
theorem exists_item_of_fails {α : Type} {coerceItem : α → ValuePath → Coerced Value}
    {coerceAll : List α → Nat → Coerced (List Value)} (hnil : ∀ index, coerceAll [] index = .ok [])
    (hcons : ∀ item rest index, coerceAll (item :: rest) index = do
      let value ← coerceItem item (.index index :: path)
      return value :: (← coerceAll rest (index + 1)))
    {items : List α} {start : Nat} (h : (coerceAll items start).Fails error) :
    ∃ index item, items[index]? = some item ∧
      (coerceItem item (.index (start + index) :: path)).Fails error ∧
      ∀ earlier < index, ∀ other, items[earlier]? = some other →
        Succeeds (coerceItem other (.index (start + earlier) :: path)) := by
  induction items generalizing start with
  | nil => exact absurd (hnil start ▸ h) (not_fails_ok _)
  | cons first rest ih =>
    rw [hcons] at h
    -- Either the first item fails, or it has a value and one of the others fails.
    rcases fails_bind.mp h with hfirst | ⟨value, hvalue, hlater⟩
    · exact ⟨0, first, rfl, hfirst, fun _ hlt => absurd hlt (Nat.not_lt_zero _)⟩
    · have hrest := (fails_bind.mp hlater).resolve_right fun ⟨_, _, hdone⟩ => not_fails_ok _ hdone
      obtain ⟨index, item, hitem, hfails, hearlier⟩ := ih hrest
      refine ⟨index + 1, item, hitem, ?_, ?_⟩
      -- The others are counted from the next index on.
      · rwa [← Nat.add_right_comm, Nat.add_assoc] at hfails
      · intro earlier hlt other hother
        -- The items before the failing one are the first one and those before it among the others.
        cases earlier with
        | zero =>
          obtain rfl := Option.some.inj hother
          exact ⟨value, hvalue⟩
        | succ earlier =>
          have hsucceeds := hearlier earlier (Nat.lt_of_succ_lt_succ hlt) other hother
          rwa [← Nat.add_right_comm, Nat.add_assoc] at hsucceeds

/-- One item of a list, and then the others. -/
theorem coerceLiteralItems_cons (item : Literal) (rest : List Literal) (ty : TypeRef)
    (index : Nat) :
    coerceLiteralItems types vars (item :: rest) ty path index = (do
      let value ← coerceLiteralItem types vars item ty (.index index :: path)
      return value :: (← coerceLiteralItems types vars rest ty path (index + 1))) := by
  rw [coerceLiteralItems, coerceLiteralItem, bind_assoc]
  refine bind_congr fun value => ?_
  cases value with
  | some value => rfl
  | none =>
    dsimp only
    split <;> rfl

/-! ### Input objects -/

/-- Coerces the fields of an input object, one after the other. -/
def gatherFields (coerceField : InputValueDefinition → Coerced (Option Value)) :
    List InputValueDefinition → Coerced (List (String × Value))
  | [] => .ok []
  | field :: fields => do
      match ← coerceField field with
      | some value => return (field.name, value) :: (← gatherFields coerceField fields)
      | none => gatherFields coerceField fields

section Fields

variable {coerceField : InputValueDefinition → Coerced (Option Value)} {field : InputValueDefinition}
  {fields : List InputValueDefinition} {object : InputObjectType}

/-- Fields fail in the first one, or after it. -/
theorem gatherFields_cons_fails : (gatherFields coerceField (field :: fields)).Fails error ↔
    (coerceField field).Fails error ∨
      Succeeds (coerceField field) ∧ (gatherFields coerceField fields).Fails error := by
  rw [gatherFields, fails_bind]
  refine or_congr_right ⟨?_, ?_⟩
  · rintro ⟨_ | value, hvalue, hlater⟩
    · exact ⟨⟨none, hvalue⟩, hlater⟩
    · exact ⟨⟨some value, hvalue⟩,
        (fails_bind.mp hlater).resolve_right fun ⟨_, _, hdone⟩ => not_fails_ok _ hdone⟩
  · rintro ⟨⟨_ | value, hvalue⟩, hlater⟩
    · exact ⟨none, hvalue, hlater⟩
    · exact ⟨some value, hvalue, fails_bind.mpr (.inl hlater)⟩

/-- Fields fail at one of them, the ones before which are accepted. The induction is on the fields. -/
theorem exists_field_of_fails (h : (gatherFields coerceField fields).Fails error) :
    ∃ before field after, fields = before ++ field :: after ∧
      (∀ other ∈ before, Succeeds (coerceField other)) ∧ (coerceField field).Fails error := by
  induction fields with
  | nil => exact absurd h (not_fails_ok _)
  | cons first rest ih =>
    rcases gatherFields_cons_fails.mp h with hfirst | ⟨hsucceeds, hrest⟩
    · exact ⟨[], first, rest, rfl, fun _ hmem => absurd hmem List.not_mem_nil, hfirst⟩
    · obtain ⟨before, field, after, rfl, hearlier, hfails⟩ := ih hrest
      exact ⟨first :: before, field, after, rfl, List.forall_mem_cons.mpr ⟨hsucceeds, hearlier⟩, hfails⟩

/-- What a field has for which nothing is given: its default, or nothing, which is a fault if it is
required. -/
def fieldByDefault (types : TypeSystem) (object : InputObjectType) (path : ValuePath)
    (field : InputValueDefinition) : Coerced (Option Value) :=
  match field.fallback with
  | some fallback => (coerceConstant types fallback field.type (.field field.name :: path)).map some
  | none =>
      if field.type.isNonNull then
        .fault (.missingRequiredField object.name field.name field.type) path
      else .ok none

/-- What the coercion of a value has for a field. -/
def fieldOfGiven (types : TypeSystem) (object : InputObjectType) (path : ValuePath)
    (given : Entries Deferred) (field : InputValueDefinition) : Coerced (Option Value) :=
  match Entries.get? given field.name with
  | some deferred => (deferred field.type (.field field.name :: path)).map some
  | none => fieldByDefault types object path field

/-- The given values that are left after one has been looked for and taken out. -/
def leftAfter (given : Entries Deferred) (name : String) : Entries Deferred :=
  if (Entries.get? given name).isSome then Entries.swapErase given name else given

section Left

variable {given : Entries Deferred} {name other : String} (hkeys : (Entries.keys given).Nodup)
include hkeys

theorem nodup_keys_leftAfter : (Entries.keys (leftAfter given name)).Nodup := by
  rw [leftAfter]
  split
  next hsome => exact Entries.nodup_keys_swapErase hkeys ((Entries.get?_isSome_iff_mem_keys _ _).mp hsome)
  next => exact hkeys

theorem mem_keys_leftAfter :
    other ∈ Entries.keys (leftAfter given name) ↔ other ∈ Entries.keys given ∧ other ≠ name := by
  rw [leftAfter]
  split
  next hsome => exact Entries.mem_keys_swapErase hkeys ((Entries.get?_isSome_iff_mem_keys _ _).mp hsome)
  next hnone =>
    rw [Entries.get?_isSome_iff_mem_keys] at hnone
    exact ⟨fun hmem => ⟨hmem, fun heq => hnone (heq ▸ hmem)⟩, And.left⟩

theorem get?_leftAfter_of_ne (hne : other ≠ name) :
    Entries.get? (leftAfter given name) other = Entries.get? given other := by
  rw [leftAfter]
  split
  next hsome =>
    exact Entries.get?_swapErase_of_ne hkeys ((Entries.get?_isSome_iff_mem_keys _ _).mp hsome) hne
  next => rfl

end Left

/-- One field of an input object, and then the others. -/
theorem coerceFields_cons (given : Entries Deferred) :
    coerceFields (coerceConstant types) object path (field :: fields) given = (do
      match ← fieldOfGiven types object path given field with
      | some value =>
          return (field.name, value) ::
            (← coerceFields (coerceConstant types) object path fields (leftAfter given field.name))
      | none => coerceFields (coerceConstant types) object path fields (leftAfter given field.name)) := by
  -- What the field has decides on both sides alike: its given value, its default, or neither.
  rw [coerceFields, fieldOfGiven, leftAfter]
  cases Entries.get? given field.name with
  | some deferred =>
    dsimp only [Option.some_or, Option.isSome_some]
    cases deferred field.type (.field field.name :: path) <;> rfl
  | none =>
    rw [fieldByDefault]
    cases field.fallback with
    | some fallback =>
      dsimp only [Option.map_some, Option.none_or, Option.isSome_none]
      cases coerceConstant types fallback field.type (.field field.name :: path) <;> rfl
    | none =>
      dsimp only [Option.map_none, Option.none_or, Option.isSome_none]
      rw [missingField]
      split <;> rfl

/-- **The values of an input object are coerced field by field**, and what is left over then is unknown.
Values are taken out as they are found, so the induction on the fields is for all that may be left, which
later fields are not affected by. -/
theorem coerceFields_fails {given : Entries Deferred} (hkeys : (Entries.keys given).Nodup)
    (hnames : (fields.map InputValueDefinition.name).Nodup)
    (hfield : ∀ field ∈ fields, coerceField field = fieldOfGiven types object path given field)
    (h : (coerceFields (coerceConstant types) object path fields given).Fails error) :
    (gatherFields coerceField fields).Fails error ∨
      ∃ name ∈ Entries.keys given, name ∉ fields.map InputValueDefinition.name ∧
        error = ⟨.unknownInputField object.name name, path⟩ := by
  induction fields generalizing given with
  | nil =>
    cases given with
    | nil => exact absurd h (not_fails_ok _)
    | cons entry rest =>
      exact .inr ⟨entry.1, List.mem_cons_self, List.not_mem_nil, fails_fault.mp h⟩
  | cons first rest ih =>
    obtain ⟨hname, hnames⟩ := List.nodup_cons.mp hnames
    obtain ⟨hfirst, hfield⟩ := List.forall_mem_cons.mp hfield
    rw [coerceFields_cons, ← hfirst] at h
    -- Either the first field fails, or it does not and the rest does.
    rcases fails_bind.mp h with hfails | ⟨found, hfound, hlater⟩
    · exact .inl (gatherFields_cons_fails.mpr (.inl hfails))
    · have hrest : (coerceFields (coerceConstant types) object path rest
          (leftAfter given first.name)).Fails error := by
        cases found with
        | none => exact hlater
        | some value => exact (fails_bind.mp hlater).resolve_right fun ⟨_, _, hdone⟩ => not_fails_ok _ hdone
      -- Taking out what is given for the first field makes no difference to a field of another
      -- name.
      have hsame : ∀ other ∈ rest, coerceField other =
          fieldOfGiven types object path (leftAfter given first.name) other := by
        intro other hother
        have hne : other.name ≠ first.name := fun heq => hname (heq ▸ List.mem_map_of_mem hother)
        rw [hfield other hother, fieldOfGiven, fieldOfGiven, get?_leftAfter_of_ne hkeys hne]
      rcases ih (nodup_keys_leftAfter hkeys) hnames hsame hrest with hfails | ⟨name, hleft, hunknown, rfl⟩
      · exact .inl (gatherFields_cons_fails.mpr (.inr ⟨⟨found, hfound⟩, hfails⟩))
      -- A key that is left over in the end has not been taken out for the first field either.
      · obtain ⟨hgiven, hne⟩ := (mem_keys_leftAfter hkeys).mp hleft
        exact .inr ⟨name, hgiven, fun hmem => (List.mem_cons.mp hmem).elim hne hunknown, rfl⟩

/-- What the coercion of a literal has for a field. -/
def fieldOfWritten (types : TypeSystem) (object : InputObjectType) (path : ValuePath)
    (given : Entries DeferredLiteral) (field : InputValueDefinition) : Coerced (Option Value) :=
  (match Entries.get? given field.name with
    | some literal => literal field.type (.field field.name :: path)
    | none => .ok none) >>= fun written =>
      match written with
      | some value => .ok (some value)
      | none => fieldByDefault types object path field

/-- **The literals of an input object are coerced field by field.** -/
theorem coerceLiteralFields_eq {given : Entries DeferredLiteral} (fields : List InputValueDefinition) :
    coerceLiteralFields types object path given fields =
      gatherFields (fieldOfWritten types object path given) fields := by
  induction fields with
  | nil => rfl
  | cons field fields ih =>
    rw [coerceLiteralFields_cons, gatherFields, fieldOfWritten, ← ih, missingField, bind_assoc]
    cases Entries.get? given field.name
    all_goals
      -- Both go on in the same way with what is written.
      refine bind_congr fun written => ?_
      cases written with
      | some value => rfl
      | none =>
        dsimp only
        rw [fieldByDefault]
        cases field.fallback with
        | some fallback =>
          dsimp only
          cases coerceConstant types fallback field.type (.field field.name :: path) <;> rfl
        | none =>
          dsimp only
          split <;> rfl

end Fields

namespace SubValue

variable {sub part : SubValue} {object : InputObjectType} {field : InputValueDefinition}

theorem coerceField_of_given? (h : sub.given? vars field = some part) :
    sub.coerceField types vars object path field = part.coerce types vars (.field field.name :: path) := by
  rw [coerceField, field?, h, Option.some_or]

/-- The default of a field is a sub-value like any other. -/
theorem coerceField_of_given?_eq_none (h : sub.given? vars field = none) :
    sub.coerceField types vars object path field = fieldByDefault types object path field := by
  rw [coerceField, field?, h, Option.none_or, fieldByDefault]
  cases field.fallback with
  | some fallback =>
    dsimp only [Option.map_some]
    rw [coerce, coerceConstant_eq types fallback]
  | none => rfl

/-- Fields that are coerced as constants. -/
theorem coerceField_ofValue {lenient : Bool} {entries : List (String × Value)} {ty : TypeRef}
    (field : InputValueDefinition) :
    coerceField types vars object (.ofValue lenient (.object entries) ty) path field =
      fieldOfGiven types object path (deferEntries types (coerceConstant types) entries) field := by
  rw [fieldOfGiven, deferEntries_eq_map, Entries.get?_map]
  cases hgiven : Entries.get? entries field.name with
  | some raw =>
    have hpart : (SubValue.ofValue lenient (.object entries) ty).given? vars field =
        some (.ofValue true raw field.type) := by
      rw [given?, hgiven, Option.map_some]
    exact coerceField_of_given? hpart
  | none => exact coerceField_of_given?_eq_none (by rw [given?, hgiven, Option.map_none])

/-- Fields that are coerced as literals are the fields of the object as a value with parts. A
variable without a value is as good as nothing, so that the default of the field stands in for it;
everything else that is written is a part of its own. -/
theorem coerceField_ofLiteral {lenient : Bool} {entries : List (String × Literal)} {ty : TypeRef}
    (field : InputValueDefinition) :
    coerceField types vars object (.ofLiteral lenient (.object entries) ty) path field =
      fieldOfWritten types object path (deferLiterals types vars entries) field := by
  -- A variable without a value is as good as nothing; anything else that is written is a part.
  rw [fieldOfWritten, deferLiterals_eq_map, Entries.get?_map]
  cases hgiven : Entries.get? entries field.name with
  | none => exact coerceField_of_given?_eq_none (by rw [given?, hgiven])
  | some literal =>
    dsimp only [Option.map_some]
    by_cases hunset : ∃ name, literal = .var name ∧ vars.get? name = none
    · obtain ⟨name, rfl, hvalue⟩ := hunset
      rw [coerceField_of_given?_eq_none (by simp [given?, hgiven, hvalue]), coerceLiteral, coerceVariable,
        hvalue]
      rfl
    · have hpart : (SubValue.ofLiteral lenient (.object entries) ty).given? vars field =
          some (.ofLiteral true literal field.type) := by
        rw [given?, hgiven]
        cases literal with
        | var name =>
          have hvalue : vars.get? name ≠ none := fun hvalue => hunset ⟨name, rfl, hvalue⟩
          exact if_pos (Option.isSome_iff_ne_none.mpr hvalue)
        | _ => rfl
      rw [coerceField_of_given? hpart, coerce]
      cases hwritten : coerceLiteral types vars true literal field.type (.field field.name :: path) with
      | error failure => rfl
      | ok written =>
        cases written with
        | some value => rfl
        | none => exact absurd (unset_of_coerceLiteral hwritten) hunset

end SubValue

end Coercion

end GraphQL
