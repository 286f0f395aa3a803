import GraphQL.Coercion.Literal
import GraphQL.Proofs.Coercion.Literals

/-!
# One place that moves

A coercion is told the place of every part of a value. The same coercions are given here with a single
place, which is moved along: one step is put on top before a part is coerced, and taken off after it, and a
fault is reported wherever the place is at the moment. Nothing takes a step back after a fault, and nothing
has to: the coercion is over.

What both forms come to is the same. So a coercion that gives a value leaves the place where it was, on
all ways through lists, input objects, defaults and literals, and the place of an error is that of the part
that was being coerced.

* `Tracked` — coercions with a place that moves: `Tracked.enter`, `Tracked.leave`, `Tracked.fault`;
* `Tracked.AgreesWith` — such a coercion has the results of one that is told its places, and afterwards is
  where it was, with a rule for each way to put coercions together;
* `Coercion.trackConstant`, `Coercion.trackLiteral` — the coercions of constants and of literals;
* `Coercion.trackConstant_agrees`, `Coercion.trackLiteral_agrees` — both forms agree.
-/

namespace GraphQL

/-- A coercion with a place that moves. -/
abbrev Tracked (α : Type) := StateT ValuePath (Except (CoercionFailure InputValueError)) α

namespace Tracked

variable {α β : Type}

/-- Steps into a part of the value. -/
def enter (segment : PathSegment) : Tracked Unit := modify (segment :: ·)

/-- Steps out of a part of the value. -/
def leave : Tracked Unit := modify List.tail

/-- Reports a fault at the place of the moment. -/
def fault (fault : InputFault) : Tracked α := do throw (.invalid ⟨fault, ← get⟩)

/-- From every place, the coercion has the result of the other one for that place, and if that is a value
it is where it was before. -/
def AgreesWith (tracked : Tracked α) (placed : ValuePath → Coerced α) : Prop :=
  ∀ path, tracked path = (placed path).map (·, path)

/-! ### Putting coercions together -/

theorem enter_apply (segment : PathSegment) (next : Unit → Tracked α) (path : ValuePath) :
    (enter segment >>= next) path = next () (segment :: path) := rfl

namespace AgreesWith

variable {tracked : Tracked α} {placed : ValuePath → Coerced α} {next : α → Tracked β}
  {next' : α → ValuePath → Coerced β}

theorem pure (value : α) : AgreesWith (Pure.pure value) fun _ => .ok value := fun _ => rfl

theorem fault (fault : InputFault) : AgreesWith (α := α) (Tracked.fault fault) (Coerced.fault fault) :=
  fun _ => rfl

/-- What comes after a coercion starts where the coercion started. -/
theorem bind_apply (h : tracked.AgreesWith placed) (next : α → Tracked β) (path : ValuePath) :
    (tracked >>= next) path = placed path >>= fun value => next value path := by
  change (tracked path >>= fun result => next result.1 result.2) = _
  rw [h path]
  cases placed path <;> rfl

/-- Two coercions, one after the other. -/
theorem bind (h : tracked.AgreesWith placed) (hnext : ∀ value, (next value).AgreesWith (next' value)) :
    AgreesWith (tracked >>= next) fun path => placed path >>= fun value => next' value path := by
  intro path
  dsimp only
  rw [h.bind_apply]
  cases placed path with
  | error failure => rfl
  | ok value => exact hnext value path

theorem map (h : tracked.AgreesWith placed) (f : α → β) :
    AgreesWith (f <$> tracked) fun path => (placed path).map f := by
  intro path
  dsimp only
  change (tracked path >>= fun result => Pure.pure (f result.1, result.2)) = _
  rw [h path]
  cases placed path <;> rfl

/-- **A part of the value**: the step is taken back before the coercion goes on. -/
theorem within (segment : PathSegment) (h : tracked.AgreesWith placed)
    (hnext : ∀ value, (next value).AgreesWith (next' value)) :
    AgreesWith (enter segment >>= fun _ => tracked >>= fun value => leave >>= fun _ => next value)
      fun path => placed (segment :: path) >>= fun value => next' value path := by
  intro path
  dsimp only
  rw [enter_apply, h.bind_apply]
  cases placed (segment :: path) with
  | error failure => rfl
  | ok value => exact hnext value path

end AgreesWith

end Tracked

open Tracked

namespace Coercion

/-! ### Constants -/

/-- Lets a scalar parse a value. -/
def trackScalar (parse : Value → Except ScalarError Value) (scalar : ScalarType) (value : Value) :
    Tracked Value :=
  match parse value with
  | .ok result => pure result
  | .error error => fault (.ofScalarError scalar.name value error)

/-- The internal value of an enum name. -/
def trackEnumName (type : EnumType) (name : String) : Tracked Value :=
  match type.parse? name with
  | some value => pure value
  | none => fault (.unknownEnumValue type.name name)

/-- Coerces the declared fields of an input object in order; each of them is entered for its value. -/
def trackFields (expand : Value → TypeRef → Tracked Value) (object : InputObjectType) :
    List InputValueDefinition → Entries (TypeRef → Tracked Value) → Tracked (List (String × Value))
  | [], given =>
      match given with
      | [] => pure []
      | (name, _) :: _ => fault (.unknownInputField object.name name)
  | field :: fields, given => do
      let found := Entries.get? given field.name
      match found.or (field.fallback.map expand) with
      | some value =>
          enter (.field field.name)
          let value ← value field.type
          leave
          let rest := if found.isSome then Entries.swapErase given field.name else given
          return (field.name, value) :: (← trackFields expand object fields rest)
      | none =>
          if field.type.isNonNull then
            fault (.missingRequiredField object.name field.name field.type)
          else trackFields expand object fields given

/-- Coerces a value that is neither null nor for a list type. -/
def trackNamed (types : TypeSystem) (expand : Value → TypeRef → Tracked Value) (value : Value)
    (given : Option (Entries (TypeRef → Tracked Value))) (ty : TypeRef) : Tracked Value :=
  match types.namedType? ty with
  | some (.scalar scalar) => trackScalar scalar.parseValue scalar value
  | some (.enum type) =>
      match value with
      | .enum name | .string name => trackEnumName type name
      | _ => fault (.incorrectEnumValueType type.name value.kind)
  | some (.inputObject object) =>
      match given with
      | some given =>
          (fun pairs => .object (Entries.ofPairs pairs)) <$>
            trackFields expand object (Entries.values object.fields.entries) given
      | none => fault (.missingObject object.name value.kind)
  | _ => fault (.notAnInputType ty.name)

/-- Coerces a value that is neither null nor a list. -/
def trackSingle (lenient : Bool) (kind : ValueKind) (named : TypeRef → Tracked Value) (ty : TypeRef) :
    Tracked Value :=
  if ty.isList then
    if lenient then wrapInLists ty <$> named ty else fault (.missingList kind ty)
  else named ty

mutual

/-- Coerces a value. -/
def trackValue (types : TypeSystem) (expand : Value → TypeRef → Tracked Value) (lenient : Bool) :
    Value → TypeRef → Tracked Value
  | .null, ty => if ty.isNonNull then fault (.unexpectedNull ty) else pure .null
  | .list items, ty =>
      match ty.itemType? with
      | some item => .list <$> trackItems types expand items item 0
      | none => trackNamed types expand (.list items) none ty
  | .object entries, ty =>
      trackSingle lenient .object
        (trackNamed types expand (.object entries) (some (trackEntries types expand entries))) ty
  | value, ty => trackSingle lenient value.kind (trackNamed types expand value none) ty

/-- Coerces the items of a list; each of them is entered by its index. -/
def trackItems (types : TypeSystem) (expand : Value → TypeRef → Tracked Value) :
    List Value → TypeRef → Nat → Tracked (List Value)
  | [], _, _ => pure []
  | item :: rest, ty, index => do
      enter (.index index)
      let value ← trackValue types expand false item ty
      leave
      return value :: (← trackItems types expand rest ty (index + 1))

/-- The values of an object, to be coerced when their fields are reached. -/
def trackEntries (types : TypeSystem) (expand : Value → TypeRef → Tracked Value) :
    List (String × Value) → Entries (TypeRef → Tracked Value)
  | [] => []
  | (key, value) :: rest => (key, trackValue types expand true value) :: trackEntries types expand rest

end

/-- Coerces a value with defaults nested at most as deep as the given number. -/
def trackDefault (types : TypeSystem) : Nat → Value → TypeRef → Tracked Value
  | 0, _ => fun _ => throw .endless
  | depth + 1, value => trackValue types (trackDefault types depth) true value

/-- Coerces a constant value to a type. -/
def trackConstant (types : TypeSystem) (value : Value) : TypeRef → Tracked Value :=
  trackDefault types ((defaultedFields types).length + 1) value

/-! ### Literals -/

/-- Coerces a variable to its value. -/
def trackVariable (vars : Variables) (name : String) (ty : TypeRef) : Tracked (Option Value) :=
  match vars.get? name with
  | some .null => if ty.isNonNull then fault (.unexpectedNull ty) else pure (some .null)
  | value => pure value

/-- The value of a field that has been entered: the one that is written, its default, or none. That a
required field has none is a fault of its object, which is gone back to. -/
def trackFieldValue (types : TypeSystem) (object : InputObjectType) (field : InputValueDefinition)
    (written : Option Value) : Tracked (Option Value) :=
  match written, field.fallback with
  | some value, _ => pure (some value)
  | none, some fallback => some <$> trackConstant types fallback field.type
  | none, none =>
      if field.type.isNonNull then do
        leave
        fault (.missingRequiredField object.name field.name field.type)
      else pure none

/-- Coerces the declared fields of an input object in order. A field is entered before it is known whether
there is a value for it. -/
def trackLiteralFields (types : TypeSystem) (object : InputObjectType)
    (given : Entries (TypeRef → Tracked (Option Value))) :
    List InputValueDefinition → Tracked (List (String × Value))
  | [] => pure []
  | field :: fields => do
      enter (.field field.name)
      let written ← match Entries.get? given field.name with
        | some literal => literal field.type
        | none => pure none
      let value ← trackFieldValue types object field written
      leave
      match value with
      | some value => return (field.name, value) :: (← trackLiteralFields types object given fields)
      | none => trackLiteralFields types object given fields

/-- Coerces an object literal; fields that are not declared are looked for first. -/
def trackLiteralObject (types : TypeSystem) (object : InputObjectType)
    (given : Entries (TypeRef → Tracked (Option Value))) : Tracked Value :=
  match (Entries.keys given).find? fun name => !Entries.contains object.fields.entries name with
  | some name => fault (.unknownInputField object.name name)
  | none =>
      (fun pairs => .object (Entries.ofPairs pairs)) <$>
        trackLiteralFields types object given (Entries.values object.fields.entries)

/-- Coerces a literal that is neither null nor a variable, and not for a list type. -/
def trackLiteralNamed (types : TypeSystem) (vars : Variables) (literal : Literal)
    (given : Option (Entries (TypeRef → Tracked (Option Value)))) (ty : TypeRef) :
    Tracked (Option Value) :=
  match types.namedType? ty with
  | some (.scalar scalar) =>
      let value := literal.toValue fun name => (vars.get? name).getD .null
      some <$> trackScalar scalar.parseLiteral scalar value
  | some (.enum type) =>
      match literal with
      | .enum name => some <$> trackEnumName type name
      | _ => fault (.incorrectEnumValueType type.name literal.kind)
  | some (.inputObject object) =>
      match given with
      | some given => some <$> trackLiteralObject types object given
      | none => fault (.missingObject object.name literal.kind)
  | _ => fault (.notAnInputType ty.name)

/-- Coerces a literal that is neither null, a variable nor a list. -/
def trackLiteralSingle (lenient : Bool) (kind : ValueKind) (named : TypeRef → Tracked (Option Value))
    (ty : TypeRef) : Tracked (Option Value) :=
  if ty.isList then
    if lenient then Option.map (wrapInLists ty) <$> named ty else fault (.missingList kind ty)
  else named ty

mutual

/-- Coerces a literal. -/
def trackLiteral (types : TypeSystem) (vars : Variables) (lenient : Bool) :
    Literal → TypeRef → Tracked (Option Value)
  | .var name, ty => trackVariable vars name ty
  | .null, ty => if ty.isNonNull then fault (.unexpectedNull ty) else pure (some .null)
  | .list items, ty =>
      match ty.itemType? with
      | some item => (fun items => some (.list items)) <$> trackLiteralItems types vars items item 0
      | none => trackLiteralNamed types vars (.list items) none ty
  | .object entries, ty =>
      trackLiteralSingle lenient .object
        (trackLiteralNamed types vars (.object entries) (some (trackLiterals types vars entries))) ty
  | literal, ty => trackLiteralSingle lenient literal.kind (trackLiteralNamed types vars literal none) ty

/-- Coerces the items of a list; that an item is missing is found out before it is left. -/
def trackLiteralItems (types : TypeSystem) (vars : Variables) :
    List Literal → TypeRef → Nat → Tracked (List Value)
  | [], _, _ => pure []
  | item :: rest, ty, index => do
      enter (.index index)
      let value ← match ← trackLiteral types vars false item ty with
        | some value => pure value
        | none => if ty.isNonNull then fault (.unexpectedNull ty) else pure .null
      leave
      return value :: (← trackLiteralItems types vars rest ty (index + 1))

/-- The literals of an object, to be coerced when their fields are reached. -/
def trackLiterals (types : TypeSystem) (vars : Variables) :
    List (String × Literal) → Entries (TypeRef → Tracked (Option Value))
  | [] => []
  | (key, literal) :: rest => (key, trackLiteral types vars true literal) :: trackLiterals types vars rest

end

/-! ### Constants agree -/

variable {types : TypeSystem} {vars : Variables} {expand : Value → Deferred}
  {expand' : Value → TypeRef → Tracked Value}

theorem trackScalar_agrees (parse : Value → Except ScalarError Value) (scalar : ScalarType)
    (value : Value) :
    (trackScalar parse scalar value).AgreesWith (coerceScalar parse scalar value) := by
  intro path
  rw [trackScalar, coerceScalar]
  cases parse value <;> rfl

theorem trackEnumName_agrees (type : EnumType) (name : String) :
    (trackEnumName type name).AgreesWith (coerceEnumName type name) := by
  intro path
  rw [trackEnumName, coerceEnumName]
  cases type.parse? name <;> rfl

theorem trackEntries_eq_map (entries : List (String × Value)) :
    trackEntries types expand' entries =
      entries.map fun entry => (entry.1, trackValue types expand' true entry.2) := by
  induction entries with
  | nil => rw [trackEntries]; rfl
  | cons entry rest ih => rw [trackEntries, ih]; rfl

section Constants

variable (hexpand : ∀ fallback ty, (expand' fallback ty).AgreesWith (expand fallback ty))
include hexpand

/-- Fields whose given values and whose defaults agree. The induction is on the declared fields. The
one place is moved into the field and out of it again before the next field is looked at, which is
what `AgreesWith.within` says. -/
theorem trackFields_agrees {coerce : Value → Deferred} {track : Value → TypeRef → Tracked Value}
    {object : InputObjectType} (fields : List InputValueDefinition) {source : Entries Value}
    (hsource : ∀ entry ∈ source, ∀ ty, (track entry.2 ty).AgreesWith (coerce entry.2 ty)) :
    (trackFields expand' object fields
        (source.map fun entry => (entry.1, track entry.2))).AgreesWith fun path =>
      coerceFields expand object path fields (source.map fun entry => (entry.1, coerce entry.2)) := by
  induction fields generalizing source with
  -- What is left over is at fault on both sides.
  | nil =>
    cases source with
    | nil => exact .pure []
    | cons entry rest => exact .fault _
  | cons field fields ih =>
    simp only [trackFields, coerceFields, Entries.get?_map]
    -- The field is given, or has a default, or neither; on both sides alike.
    cases hgiven : Entries.get? source field.name with
    | some raw =>
      simp only [Option.map_some, Option.some_or, Option.isSome_some, if_true, Entries.swapErase_map]
      refine .within _ (hsource _ (Entries.get?_mem hgiven) field.type) fun value => ?_
      exact (ih fun entry hmem => hsource entry (Entries.mem_of_mem_swapErase hmem)).bind fun _ => .pure _
    | none =>
      cases field.fallback with
      | some fallback =>
        refine .within _ (hexpand fallback field.type) fun value => ?_
        exact (ih hsource).bind fun _ => .pure _
      | none =>
        simp only [Option.map_none, Option.or_none]
        split
        · exact .fault _
        · exact ih hsource

theorem trackNamed_agrees (value : Value) (source : Option (Entries Value))
    (hsource : ∀ entries, source = some entries → ∀ entry ∈ entries, ∀ ty,
      (trackValue types expand' true entry.2 ty).AgreesWith (coerceValue types expand true entry.2 ty))
    (ty : TypeRef) :
    (trackNamed types expand' value (source.map (trackEntries types expand')) ty).AgreesWith
      (coerceNamed types expand value (source.map (deferEntries types expand)) ty) := by
  intro path
  rw [trackNamed, coerceNamed]
  -- The named type decides, and both sides look it up.
  cases types.namedType? ty with
  | none => exact AgreesWith.fault _ path
  | some definition =>
    cases definition with
    | scalar scalar => exact trackScalar_agrees _ scalar value path
    | enum type =>
      cases value with
      | enum name | string name => exact trackEnumName_agrees type name path
      | _ => exact AgreesWith.fault _ path
    | inputObject object =>
      cases source with
      | none => exact AgreesWith.fault _ path
      | some entries =>
        -- The entries are mapped on both sides, so they are looked up alike.
        simp only [Option.map_some, trackEntries_eq_map, deferEntries_eq_map]
        exact (trackFields_agrees hexpand _ (hsource entries rfl)).map _ path
    | object | interface | union => exact AgreesWith.fault _ path

omit hexpand in
theorem trackSingle_agrees {named : Deferred} {named' : TypeRef → Tracked Value}
    (h : ∀ ty, (named' ty).AgreesWith (named ty)) (lenient : Bool) (kind : ValueKind) (ty : TypeRef) :
    (trackSingle lenient kind named' ty).AgreesWith (coerceSingle lenient kind named ty) := by
  intro path
  rw [trackSingle, coerceSingle]
  split
  · split
    · exact (h ty).map _ path
    · exact AgreesWith.fault _ path
  · exact h ty path

/-- Values that are neither null nor composite. -/
theorem trackLeaf_agrees (value : Value) (lenient : Bool) (ty : TypeRef) :
    (trackSingle lenient value.kind (trackNamed types expand' value none) ty).AgreesWith
      (coerceSingle lenient value.kind (coerceNamed types expand value none) ty) :=
  trackSingle_agrees (trackNamed_agrees hexpand value none fun _ hsome => nomatch hsome) lenient _ ty

end Constants

mutual

/-- **Constants agree**, if the expansions of defaults do. The recursion is that of the value: a
value leaves the place where it was, and a fault takes the place at which the recursion is. -/
theorem trackValue_agrees
    (hexpand : ∀ fallback ty, (expand' fallback ty).AgreesWith (expand fallback ty)) :
    ∀ (value : Value) (lenient : Bool) (ty : TypeRef),
      (trackValue types expand' lenient value ty).AgreesWith (coerceValue types expand lenient value ty)
  | .null, lenient, ty => by
    intro path
    rw [trackValue, coerceValue]
    split
    · exact AgreesWith.fault _ path
    · exact AgreesWith.pure _ path
  | .list items, lenient, ty => by
    intro path
    rw [trackValue, coerceValue]
    cases ty.itemType? with
    | some item => exact (trackItems_agrees hexpand items item 0).map Value.list path
    -- For a type without items a list is like any other value, and is left to the named type.
    | none => exact trackNamed_agrees hexpand (.list items) none (fun _ hsome => nomatch hsome) ty path
  | .object entries, lenient, ty => by
    have hnamed := trackNamed_agrees hexpand (.object entries) (some entries)
      fun _ hsource => Option.some.inj hsource ▸ entries_agree hexpand entries
    intro path
    rw [trackValue, coerceValue]
    exact trackSingle_agrees hnamed lenient .object ty path
  | .bool b, lenient, ty => trackLeaf_agrees hexpand (.bool b) lenient ty
  | .number n, lenient, ty => trackLeaf_agrees hexpand (.number n) lenient ty
  | .string s, lenient, ty => trackLeaf_agrees hexpand (.string s) lenient ty
  | .enum name, lenient, ty => trackLeaf_agrees hexpand (.enum name) lenient ty
  | .binary bytes, lenient, ty => trackLeaf_agrees hexpand (.binary bytes) lenient ty

theorem trackItems_agrees
    (hexpand : ∀ fallback ty, (expand' fallback ty).AgreesWith (expand fallback ty)) :
    ∀ (items : List Value) (ty : TypeRef) (index : Nat),
      (trackItems types expand' items ty index).AgreesWith fun path =>
        coerceItems types expand items ty path index
  | [], _, _ => .pure []
  | item :: rest, ty, index => by
    simp only [trackItems, coerceItems]
    refine .within _ (trackValue_agrees hexpand item false ty) fun value => ?_
    exact (trackItems_agrees hexpand rest ty (index + 1)).bind fun _ => .pure _

theorem entries_agree
    (hexpand : ∀ fallback ty, (expand' fallback ty).AgreesWith (expand fallback ty)) :
    ∀ (entries : List (String × Value)), ∀ entry ∈ entries, ∀ ty,
      (trackValue types expand' true entry.2 ty).AgreesWith (coerceValue types expand true entry.2 ty)
  | [], _, hmem => absurd hmem List.not_mem_nil
  | (key, value) :: rest, entry, hmem => by
    rcases List.mem_cons.mp hmem with rfl | hmem
    · exact trackValue_agrees hexpand value true
    · exact entries_agree hexpand rest entry hmem

end

/-- Defaults agree, however deep they may nest. -/
theorem trackDefault_agrees (depth : Nat) (value : Value) (ty : TypeRef) :
    (trackDefault types depth value ty).AgreesWith (expandDefault types depth value ty) := by
  induction depth generalizing value ty with
  | zero => exact fun _ => rfl
  | succ depth ih => exact trackValue_agrees ih value true ty

/-- **Constants agree.** -/
theorem trackConstant_agrees (value : Value) (ty : TypeRef) :
    (trackConstant types value ty).AgreesWith (coerceConstant types value ty) :=
  trackDefault_agrees _ value ty

/-! ### Literals agree -/

theorem trackVariable_agrees (name : String) (ty : TypeRef) :
    (trackVariable vars name ty).AgreesWith (coerceVariable vars name ty) := by
  intro path
  rw [trackVariable, coerceVariable]
  cases vars.get? name with
  | none => exact AgreesWith.pure none path
  -- Only null depends on the type.
  | some value =>
    cases value with
    | null =>
      dsimp only
      split
      · exact AgreesWith.fault _ path
      · exact AgreesWith.pure _ path
    | _ => exact AgreesWith.pure _ path

theorem trackLiterals_eq_map (entries : List (String × Literal)) :
    trackLiterals types vars entries =
      entries.map fun entry => (entry.1, trackLiteral types vars true entry.2) := by
  induction entries with
  | nil => rw [trackLiterals]; rfl
  | cons entry rest ih => rw [trackLiterals, ih]; rfl

/-- The value of an entered field, and what comes after it. The place steps out of the field, whether there
is a value for it or not. -/
theorem trackFieldValue_apply {α : Type} {object : InputObjectType} {field : InputValueDefinition}
    {next : Option Value → Tracked α} {next' : Option Value → ValuePath → Coerced α}
    (hnext : ∀ value, (next value).AgreesWith (next' value)) (written : Option Value) (path : ValuePath) :
    (trackFieldValue types object field written >>= fun value => leave >>= fun _ => next value)
        (.field field.name :: path) =
      (match written, field.fallback with
        | some value, _ => next' (some value) path
        | none, some fallback =>
            coerceConstant types fallback field.type (.field field.name :: path) >>=
              fun value => next' (some value) path
        | none, none =>
            if field.type.isNonNull then
              .fault (.missingRequiredField object.name field.name field.type) path
            else next' none path).map (·, path) := by
  -- The place has been entered already, and is left whether there is a value or not.
  cases written with
  | some value => exact hnext (some value) path
  | none =>
    cases hfallback : field.fallback with
    | some fallback =>
      simp only [trackFieldValue, hfallback]
      -- A default is expanded inside of the field, which is left afterwards.
      rw [((trackConstant_agrees fallback field.type).map some).bind_apply]
      cases coerceConstant types fallback field.type (.field field.name :: path) with
      | error failure => rfl
      | ok value => exact hnext (some value) path
    | none =>
      simp only [trackFieldValue, hfallback]
      split
      · rfl
      · exact hnext none path

/-- Fields whose literals agree. The induction is on the declared fields. Other than with constants
the place is moved into the field before it is known whether there is a value, and it has to be
moved back in either case. -/
theorem trackLiteralFields_agrees {object : InputObjectType} {source : Entries Literal}
    (hsource : ∀ entry ∈ source, ∀ ty,
      (trackLiteral types vars true entry.2 ty).AgreesWith (coerceLiteral types vars true entry.2 ty))
    (fields : List InputValueDefinition) :
    (trackLiteralFields types object (trackLiterals types vars source) fields).AgreesWith fun path =>
      coerceLiteralFields types object path (deferLiterals types vars source) fields := by
  induction fields with
  | nil => exact .pure []
  | cons field fields ih =>
    -- What comes after the field, with its value in front if there is one.
    have hnext : ∀ value : Option Value, AgreesWith
        (match value with
          | some value => do
              return (field.name, value) ::
                (← trackLiteralFields types object (trackLiterals types vars source) fields)
          | none => trackLiteralFields types object (trackLiterals types vars source) fields)
        (fun path => match value with
          | some value => do
              return (field.name, value) ::
                (← coerceLiteralFields types object path (deferLiterals types vars source) fields)
          | none => coerceLiteralFields types object path (deferLiterals types vars source) fields) := by
      rintro (_ | value)
      · exact ih
      · exact ih.bind fun _ => .pure _
    have hfield := @trackFieldValue_apply types _ object field _ _ hnext
    intro path
    simp only [trackLiteralFields, coerceLiteralFields, trackLiterals_eq_map, deferLiterals_eq_map,
      Entries.get?_map]
    rw [← trackLiterals_eq_map, ← deferLiterals_eq_map]
    -- Nothing is written for the field.
    cases hgiven : Entries.get? source field.name with
    | none =>
      refine (hfield none path).trans ?_
      cases field.fallback <;> rfl
    | some literal =>
      -- Something is written, and is coerced inside of the field.
      have hliteral := hsource _ (Entries.get?_mem hgiven) field.type
      rw [enter_apply]
      dsimp only [Option.map_some]
      rw [hliteral.bind_apply]
      cases coerceLiteral types vars true literal field.type (.field field.name :: path) with
      | error failure => rfl
      | ok written =>
        refine (hfield written path).trans ?_
        cases written <;> cases field.fallback <;> rfl

theorem trackLiteralObject_agrees {object : InputObjectType} {source : Entries Literal}
    (hsource : ∀ entry ∈ source, ∀ ty,
      (trackLiteral types vars true entry.2 ty).AgreesWith (coerceLiteral types vars true entry.2 ty)) :
    (trackLiteralObject types object (trackLiterals types vars source)).AgreesWith fun path =>
      coerceLiteralObject types object path (deferLiterals types vars source) := by
  intro path
  -- Both sides look for unknown keys first, and have the same keys.
  have hkeys : Entries.keys (trackLiterals types vars source) =
      Entries.keys (deferLiterals types vars source) := by
    rw [trackLiterals_eq_map, deferLiterals_eq_map, Entries.keys_map, Entries.keys_map]
  dsimp only
  rw [trackLiteralObject, coerceLiteralObject, hkeys]
  cases (Entries.keys (deferLiterals types vars source)).find? fun name =>
      !Entries.contains object.fields.entries name with
  | some name => exact AgreesWith.fault _ path
  | none => exact (trackLiteralFields_agrees hsource _).map _ path

theorem trackLiteralNamed_agrees (literal : Literal) (source : Option (Entries Literal))
    (hsource : ∀ entries, source = some entries → ∀ entry ∈ entries, ∀ ty,
      (trackLiteral types vars true entry.2 ty).AgreesWith (coerceLiteral types vars true entry.2 ty))
    (ty : TypeRef) :
    (trackLiteralNamed types vars literal (source.map (trackLiterals types vars)) ty).AgreesWith
      (coerceLiteralNamed types vars literal (source.map (deferLiterals types vars)) ty) := by
  intro path
  rw [trackLiteralNamed, coerceLiteralNamed]
  -- The named type decides, and both sides look it up.
  cases types.namedType? ty with
  | none => exact AgreesWith.fault _ path
  | some definition =>
    cases definition with
    | scalar scalar => exact (trackScalar_agrees _ scalar _).map some path
    | enum type =>
      cases literal with
      | enum name => exact (trackEnumName_agrees type name).map some path
      | _ => exact AgreesWith.fault _ path
    | inputObject object =>
      cases source with
      | none => exact AgreesWith.fault _ path
      | some entries => exact (trackLiteralObject_agrees (hsource entries rfl)).map some path
    | object | interface | union => exact AgreesWith.fault _ path

theorem trackLiteralSingle_agrees {named : DeferredLiteral} {named' : TypeRef → Tracked (Option Value)}
    (h : ∀ ty, (named' ty).AgreesWith (named ty)) (lenient : Bool) (kind : ValueKind) (ty : TypeRef) :
    (trackLiteralSingle lenient kind named' ty).AgreesWith (coerceLiteralSingle lenient kind named ty) := by
  intro path
  rw [trackLiteralSingle, coerceLiteralSingle]
  split
  · split
    · exact (h ty).map _ path
    · exact AgreesWith.fault _ path
  · exact h ty path

/-- Literals that are neither null, a variable nor composite. -/
theorem trackLiteralLeaf_agrees (literal : Literal) (lenient : Bool) (ty : TypeRef) :
    (trackLiteralSingle lenient literal.kind (trackLiteralNamed types vars literal none) ty).AgreesWith
      (coerceLiteralSingle lenient literal.kind (coerceLiteralNamed types vars literal none) ty) :=
  trackLiteralSingle_agrees (trackLiteralNamed_agrees literal none fun _ hsome => nomatch hsome) lenient _ ty

mutual

/-- **Literals agree.** The recursion is that of the literal; there is no assumption on defaults, as
these are constants, and constants agree at any number of levels. -/
theorem trackLiteral_agrees : ∀ (literal : Literal) (lenient : Bool) (ty : TypeRef),
    (trackLiteral types vars lenient literal ty).AgreesWith (coerceLiteral types vars lenient literal ty)
  | .var name, lenient, ty => trackVariable_agrees name ty
  | .null, lenient, ty => by
    intro path
    rw [trackLiteral, coerceLiteral]
    split
    · exact AgreesWith.fault _ path
    · exact AgreesWith.pure _ path
  | .list items, lenient, ty => by
    intro path
    rw [trackLiteral, coerceLiteral]
    cases ty.itemType? with
    | some item => exact (trackLiteralItems_agrees items item 0).map _ path
    -- For a type without items a list is like any other literal, and is left to the named type.
    | none =>
      exact trackLiteralNamed_agrees (.list items) none (fun _ hsome => nomatch hsome) ty path
  | .object entries, lenient, ty => by
    -- The entries agree by the recursion, whatever the types of their fields are.
    have hnamed : ∀ ty,
        (trackLiteralNamed types vars (.object entries)
          (some (trackLiterals types vars entries)) ty).AgreesWith
          (coerceLiteralNamed types vars (.object entries) (some (deferLiterals types vars entries)) ty) :=
      trackLiteralNamed_agrees (.object entries) (some entries)
        fun _ hsource => Option.some.inj hsource ▸ literals_agree entries
    intro path
    rw [trackLiteral, coerceLiteral]
    exact trackLiteralSingle_agrees hnamed lenient .object ty path
  | .bool b, lenient, ty => trackLiteralLeaf_agrees (.bool b) lenient ty
  | .number n, lenient, ty => trackLiteralLeaf_agrees (.number n) lenient ty
  | .string s, lenient, ty => trackLiteralLeaf_agrees (.string s) lenient ty
  | .enum name, lenient, ty => trackLiteralLeaf_agrees (.enum name) lenient ty

theorem trackLiteralItems_agrees : ∀ (items : List Literal) (ty : TypeRef) (index : Nat),
    (trackLiteralItems types vars items ty index).AgreesWith fun path =>
      coerceLiteralItems types vars items ty path index
  | [], _, _ => .pure []
  | item :: rest, ty, index => by
    intro path
    simp only [trackLiteralItems, coerceLiteralItems]
    rw [enter_apply, (trackLiteral_agrees item false ty).bind_apply]
    cases coerceLiteral types vars false item ty (.index index :: path) with
    | error failure => rfl
    | ok value =>
      have hrest : ∀ value : Value, _ := fun value =>
        ((trackLiteralItems_agrees rest ty (index + 1)).bind
          fun values => AgreesWith.pure (value :: values)) path
      cases value with
      | some value => exact hrest value
      | none =>
        -- A missing item is null, which is a fault of the item and not of its list.
        split
        · rfl
        · exact hrest .null

theorem literals_agree : ∀ (entries : List (String × Literal)), ∀ entry ∈ entries, ∀ ty,
    (trackLiteral types vars true entry.2 ty).AgreesWith (coerceLiteral types vars true entry.2 ty)
  | [], _, hmem => absurd hmem List.not_mem_nil
  | (key, literal) :: rest, entry, hmem => by
    rcases List.mem_cons.mp hmem with rfl | hmem
    · exact trackLiteral_agrees literal true
    · exact literals_agree rest entry hmem

end

end Coercion

end GraphQL
