import GraphQL.Proofs.Coercion.EndingCoercions
import GraphQL.Proofs.Coercion.InputFaults
import GraphQL.Proofs.Coercion.SubValues
import GraphQL.Proofs.Coercion.TrackedPlaces
import GraphQL.Proofs.Schema.WellFormed

/-!
# Errors lead to what is rejected

The place of an error is followed from the value that was coerced. Each step goes to a part that has been
entered, and at the end of the way is the sub-value that was rejected.

* `SubValue.FailsAt` — a coercion fails because the sub-value itself is rejected, or in a part of it;
* `SubValue.failsAt_of_value`, `SubValue.failsAt_of_literal` — which is so of all of them, with one lemma
  for each form of values and literals;
* `SubValue.exists_reached` — hence the way that the place of an error is leads to what is rejected;
* `errors_lead_to_rejected` — on all ways the place is back where it was after a coercion with a value, and
  leads to what is rejected after one without.
-/

namespace GraphQL

open Coerced

namespace Coercion

open SubValue

namespace SubValue

variable {types : TypeSystem} {vars : Variables} {path : ValuePath} {error : InputValueError}
  {sub part : SubValue} {object : InputObjectType} {field : InputValueDefinition}

/-- A coercion fails because the sub-value itself is rejected, or in a part of it that is entered. -/
def FailsAt (types : TypeSystem) (vars : Variables) (path : ValuePath) (sub : SubValue)
    (error : InputValueError) : Prop :=
  (error.path = path ∧ Rejects types vars path sub error.fault) ∨
    ∃ segment part, Enters types vars (path, sub) (segment :: path, part) ∧
      (part.coerce types vars (segment :: path)).Fails error

/-- What is rejected fails where it is. -/
theorem failsAt_of_fault {α : Type} {fault : InputFault} (hrejects : Rejects types vars path sub fault)
    (h : (Coerced.fault fault path : Coerced α).Fails error) : FailsAt types vars path sub error := by
  obtain rfl := fails_fault.mp h
  exact .inl ⟨rfl, hrejects⟩

theorem failsAt_of_scalar {scalar : ScalarType} (hnamed : sub.IsNamed)
    (htype : types.namedType? sub.type = some (.scalar scalar))
    (h : (coerceScalar (sub.parser scalar) scalar (sub.raw vars) path).Fails error) :
    FailsAt types vars path sub error := by
  rw [coerceScalar] at h
  split at h
  next => exact absurd h (not_fails_ok _)
  next failure hparsed => exact failsAt_of_fault (.scalar hnamed htype hparsed) h

theorem failsAt_of_enumName {type : EnumType} {name : String} (hnamed : sub.IsNamed)
    (htype : types.namedType? sub.type = some (.enum type)) (hname : sub.enumName? = some name)
    (h : (coerceEnumName type name path).Fails error) : FailsAt types vars path sub error := by
  rw [coerceEnumName] at h
  split at h
  next => exact absurd h (not_fails_ok _)
  next hunknown => exact failsAt_of_fault (.enumName hnamed htype hname hunknown) h

/-- An object whose fields fail. -/
theorem failsAt_of_fields (hobject : sub.IsObjectOf types object)
    (h : (gatherFields (sub.coerceField types vars object path) (Entries.values object.fields.entries)).Fails
      error) : FailsAt types vars path sub error := by
  -- One of the fields fails, and those before it do not.
  obtain ⟨before, field, after, hfields, hearlier, hfails⟩ := exists_field_of_fails h
  rw [coerceField] at hfails
  -- It fails at what is given for it or at its default, or else because it has neither.
  cases hpart : sub.field? vars field with
  | some part =>
    rw [hpart] at hfails
    exact .inr ⟨_, part, .field hobject hfields hpart hearlier, hfails⟩
  | none =>
    rw [hpart] at hfails
    dsimp only at hfails
    split at hfails
    next hrequired =>
      exact failsAt_of_fault (.missingField hobject hfields hearlier hpart hrequired) hfails
    next => exact absurd hfails (not_fails_ok _)

/-- A list whose items fail. -/
theorem failsAt_of_items {α : Type} {items : List α} {wrap : α → SubValue}
    (hitems : sub.items = items.map wrap) (coerceItem : α → ValuePath → Coerced Value)
    (hwrap : ∀ item path, (wrap item).coerce types vars path = (coerceItem item path).map some)
    (coerceAll : List α → Nat → Coerced (List Value)) (hnil : ∀ index, coerceAll [] index = .ok [])
    (hcons : ∀ item rest index, coerceAll (item :: rest) index = do
      let value ← coerceItem item (.index index :: path)
      return value :: (← coerceAll rest (index + 1)))
    (h : (coerceAll items 0).Fails error) : FailsAt types vars path sub error := by
  -- One of the items fails, and those before it do not.
  obtain ⟨index, item, hitem, hfails, hearlier⟩ := exists_item_of_fails hnil hcons h
  rw [Nat.zero_add] at hfails
  have hpart : sub.items[index]? = some (wrap item) := by
    rw [hitems, List.getElem?_map, hitem, Option.map_some]
  refine .inr ⟨_, _, .item hpart fun earlier hlt other hother => ?_, hwrap item _ ▸ fails_map.mpr hfails⟩
  rw [hitems, List.getElem?_map] at hother
  -- An item before it has a value, so it is accepted as a part as well.
  obtain ⟨raw, hraw, rfl⟩ := Option.map_eq_some_iff.mp hother
  obtain ⟨value, hvalue⟩ := hearlier earlier hlt raw hraw
  rw [Nat.zero_add] at hvalue
  exact ⟨some value, by rw [hwrap, hvalue]; rfl⟩

section Constants

variable {lenient : Bool} {value : Value} {ty : TypeRef}
  (htyped : ∀ name, error.fault ≠ .notAnInputType name)

/-- An object that is taken for an input object. -/
theorem failsAt_of_coerceFields {entries : List (String × Value)}
    (hvalue : (Value.object entries).IsWellFormed)
    (hobject : (SubValue.ofValue lenient (.object entries) ty).IsObjectOf types object)
    (h : (coerceFields (coerceConstant types) object path (Entries.values object.fields.entries)
      (deferEntries types (coerceConstant types) entries)).Fails error) :
    FailsAt types vars path (.ofValue lenient (.object entries) ty) error := by
  have hentries : Entries.keys (deferEntries types (coerceConstant types) entries) =
      Entries.keys entries := by
    rw [deferEntries_eq_map, Entries.keys_map]
  cases hvalue with
  | object hkeys _ =>
    rcases coerceFields_fails (hentries ▸ hkeys) object.fields.nodup_names
        (fun field _ => coerceField_ofValue field) h with
      hfails | ⟨name, hmem, hunknown, rfl⟩
    · exact failsAt_of_fields hobject hfails
    -- What is left when all fields have taken theirs has a key that is no field.
    · have hkey : name ∈ Entries.keys entries := hentries ▸ hmem
      exact .inl ⟨rfl, .unknownField hobject hkey hunknown⟩

include htyped

/-- A value that is taken for one of its named type is rejected itself, or a field of it fails.
Values of scalars and enum types have no parts, so their faults are their own; which one it is
depends on what the name stands for. -/
theorem failsAt_of_coerceNamed (hvalue : value.IsWellFormed)
    (source : Option (Entries Value)) (hsource : ∀ entries, source = some entries ↔ value = .object entries)
    (hnamed : (SubValue.ofValue lenient value ty).IsNamed)
    (h : (coerceNamed types (coerceConstant types) value
      (source.map (deferEntries types (coerceConstant types))) ty path).Fails error) :
    FailsAt types vars path (.ofValue lenient value ty) error := by
  rw [coerceNamed] at h
  split at h
  next scalar htype => exact failsAt_of_scalar hnamed htype h
  next type htype =>
    -- Only names stand for values of an enum.
    cases value with
    | enum name | string name => exact failsAt_of_enumName hnamed htype rfl h
    | _ => exact failsAt_of_fault (.noEnumName hnamed htype rfl) h
  next object htype =>
    cases source with
    | none =>
      -- No entries are given, so the value is no object.
      refine failsAt_of_fault (.noObject hnamed htype fun hkind => ?_) h
      obtain ⟨entries, rfl⟩ := Value.exists_entries hkind
      cases (hsource entries).mpr rfl
    | some entries =>
      obtain rfl := (hsource entries).mp rfl
      exact failsAt_of_coerceFields hvalue ⟨rfl, hnamed, htype⟩ (fails_map.mp h)
  -- What is left over are types that no value of an input type has.
  next =>
    obtain rfl := fails_fault.mp h
    exact absurd rfl (htyped _)

/-- A value that stands for itself or for a list of one. -/
theorem failsAt_of_coerceSingle (hvalue : value.IsWellFormed)
    (source : Option (Entries Value)) (hsource : ∀ entries, source = some entries ↔ value = .object entries)
    (hnull : value.kind ≠ .null) (hlist : value.kind ≠ .list)
    (h : (coerceSingle lenient value.kind (coerceNamed types (coerceConstant types) value
      (source.map (deferEntries types (coerceConstant types)))) ty path).Fails error) :
    FailsAt types vars path (.ofValue lenient value ty) error := by
  rw [coerceSingle] at h
  split at h
  next hexpected =>
    -- A list is expected: the value stands for a list of one, unless it is an item.
    split at h
    next hlenient =>
      exact failsAt_of_coerceNamed htyped hvalue source hsource ⟨hnull, fun _ => ⟨hlist, hlenient⟩⟩
        (fails_map.mp h)
    next hitem => exact failsAt_of_fault (.single hnull hlist hexpected (Bool.eq_false_iff.mpr hitem)) h
  next hexpected =>
    exact failsAt_of_coerceNamed htyped hvalue source hsource
      ⟨hnull, fun hlist => absurd hlist hexpected⟩ h

/-- **A constant fails at itself or at a part that is entered.** The cases are the forms of the
value: null and leaves have no parts, items are the parts of a list, and an object is left to its
named type, in as many lists as that has. -/
theorem failsAt_of_value (hvalue : value.IsWellFormed)
    (h : (coerceValue types (coerceConstant types) lenient value ty path).Fails error) :
    FailsAt types vars path (.ofValue lenient value ty) error := by
  cases value with
  -- Null is at fault itself, if its type excludes it.
  | null =>
    rw [coerceValue] at h
    split at h
    next hrequired => exact failsAt_of_fault (.null trivial hrequired) h
    next => exact absurd h (not_fails_ok _)
  | list items =>
    rw [coerceValue] at h
    split at h
    next item hitem =>
      have hitems : (SubValue.ofValue lenient (.list items) ty).items =
          -- The items of the value are its parts.
          items.map (.ofValue false · item) := by
        rw [SubValue.items, hitem]
      exact failsAt_of_items hitems
        (fun raw => coerceValue types (coerceConstant types) false raw item) (fun _ _ => rfl)
        (fun items => coerceItems types (coerceConstant types) items item path) (fun _ => rfl)
        (fun _ _ _ => rfl) (fails_map.mp h)
    next hitem =>
      -- For a type without items a list is like any other value, and is left to the named type.
      have hnamed : (SubValue.ofValue lenient (.list items) ty).IsNamed :=
        ⟨by rintro ⟨⟩, fun hlist => absurd hlist (TypeRef.itemType?_eq_none_iff.mp hitem)⟩
      exact failsAt_of_coerceNamed htyped hvalue none (by simp) hnamed h
  | object entries =>
    -- Any other value is taken for one of its named type, or wrapped for a list of one.
    exact failsAt_of_coerceSingle htyped hvalue (some entries) (by simp) (by rintro ⟨⟩) (by rintro ⟨⟩) h
  | number n =>
    exact failsAt_of_coerceSingle htyped hvalue none (by simp) (by cases n <;> rintro ⟨⟩)
      (by cases n <;> rintro ⟨⟩) h
  | bool | string | enum | binary =>
    exact failsAt_of_coerceSingle htyped hvalue none (by simp) (by rintro ⟨⟩) (by rintro ⟨⟩) h

end Constants

section Literals

variable {lenient : Bool} {literal : Literal} {ty : TypeRef}
  (htyped : ∀ name, error.fault ≠ .notAnInputType name)

/-- An object literal that is taken for an input object. -/
theorem failsAt_of_coerceLiteralObject {entries : List (String × Literal)}
    (hobject : (SubValue.ofLiteral lenient (.object entries) ty).IsObjectOf types object)
    (h : (coerceLiteralObject types object path (deferLiterals types vars entries)).Fails error) :
    FailsAt types vars path (.ofLiteral lenient (.object entries) ty) error := by
  rw [coerceLiteralObject] at h
  split at h
  next name hname =>
    have hkey : name ∈ Entries.keys entries := by
      have hmem := List.mem_of_find?_eq_some hname
      rwa [deferLiterals_eq_map, Entries.keys_map] at hmem
    have hunknown : name ∉ (Entries.values object.fields.entries).map InputValueDefinition.name := by
      rw [object.fields.names_eq_keys, ← Entries.get?_isSome_iff_mem_keys]
      simpa [Entries.contains] using List.find?_some hname
    exact failsAt_of_fault (.unknownField hobject hkey hunknown) h
  next =>
    -- Unknown keys have been looked for first, so from here only declared fields can fail.
    have hfields := fails_map.mp h
    have hsame : fieldOfWritten types object path (deferLiterals types vars entries) =
        coerceField types vars object (.ofLiteral lenient (.object entries) ty) path :=
      funext fun field => (coerceField_ofLiteral field).symm
    rw [coerceLiteralFields_eq, hsame] at hfields
    exact failsAt_of_fields hobject hfields

include htyped

/-- A literal that is taken for one of its named type is rejected itself, or a field of it fails.
The cases are those of a constant, except that only a bare name is a name of an enum type here, and
that unknown fields are found before any other. -/
theorem failsAt_of_coerceLiteralNamed (source : Option (Entries Literal))
    (hsource : ∀ entries, source = some entries ↔ literal = .object entries)
    (hnamed : (SubValue.ofLiteral lenient literal ty).IsNamed)
    (h : (coerceLiteralNamed types vars literal (source.map (deferLiterals types vars)) ty path).Fails
      error) : FailsAt types vars path (.ofLiteral lenient literal ty) error := by
  rw [coerceLiteralNamed] at h
  split at h
  next scalar htype => exact failsAt_of_scalar hnamed htype (fails_map.mp h)
  next type htype =>
    -- A string is no name of an enum when it is written as a literal.
    cases literal with
    | enum name => exact failsAt_of_enumName hnamed htype rfl (fails_map.mp h)
    | _ => exact failsAt_of_fault (.noEnumName hnamed htype rfl) h
  next object htype =>
    cases source with
    -- No entries are given, so the literal is no object.
    | none =>
      refine failsAt_of_fault (.noObject hnamed htype fun hkind => ?_) h
      obtain ⟨entries, rfl⟩ := Literal.exists_entries hkind
      cases (hsource entries).mpr rfl
    | some entries =>
      obtain rfl := (hsource entries).mp rfl
      have hobject := fails_map.mp h
      exact failsAt_of_coerceLiteralObject ⟨rfl, hnamed, htype⟩ hobject
  -- What is left over are types that no literal of an input type has.
  next =>
    obtain rfl := fails_fault.mp h
    exact absurd rfl (htyped _)

/-- A literal that stands for itself or for a list of one. -/
theorem failsAt_of_coerceLiteralSingle (source : Option (Entries Literal))
    (hsource : ∀ entries, source = some entries ↔ literal = .object entries)
    (hnull : literal.kind ≠ .null) (hlist : literal.kind ≠ .list)
    (h : (coerceLiteralSingle lenient literal.kind (coerceLiteralNamed types vars literal
      (source.map (deferLiterals types vars))) ty path).Fails error) :
    FailsAt types vars path (.ofLiteral lenient literal ty) error := by
  rw [coerceLiteralSingle] at h
  split at h
  -- A type of lists accepts a single literal in place of a list of one, if that is allowed.
  next hexpected =>
    split at h
    next hlenient =>
      exact failsAt_of_coerceLiteralNamed htyped source hsource
        ⟨hnull, fun _ => ⟨hlist, hlenient⟩⟩ (fails_map.mp h)
    next hitem => exact failsAt_of_fault (.single hnull hlist hexpected (Bool.eq_false_iff.mpr hitem)) h
  next hexpected =>
    exact failsAt_of_coerceLiteralNamed htyped source hsource
      ⟨hnull, fun hlist => absurd hlist hexpected⟩ h

/-- **A literal fails at itself or at a part that is entered.** The cases are those of a constant
and the variable. A variable has been coerced before, so all that can be wrong with it is that it is
null where its type excludes that. -/
theorem failsAt_of_literal
    (h : (coerceLiteral types vars lenient literal ty path).Fails error) :
    FailsAt types vars path (.ofLiteral lenient literal ty) error := by
  cases literal with
  | null =>
    rw [coerceLiteral] at h
    split at h
    next hrequired => exact failsAt_of_fault (.null trivial hrequired) h
    next => exact absurd h (not_fails_ok _)
  | var name =>
    -- A variable fails only where it is null, or has no value, and its type excludes null.
    rw [coerceLiteral, coerceVariable] at h
    split at h
    next hvalue =>
      split at h
      next hrequired => exact failsAt_of_fault (.null (.inl hvalue) hrequired) h
      next => exact absurd h (not_fails_ok _)
    next => exact absurd h (not_fails_ok _)
  | list items =>
    rw [coerceLiteral] at h
    split at h
    next item hitem =>
      -- The items of the literal are its parts.
      have hitems : (SubValue.ofLiteral lenient (.list items) ty).items =
          items.map (.ofLiteral false · item) := by
        rw [SubValue.items, hitem]
      exact failsAt_of_items hitems (fun literal => coerceLiteralItem types vars literal item)
        (fun _ _ => rfl) (fun items => coerceLiteralItems types vars items item path) (fun _ => rfl)
        (fun first rest index => coerceLiteralItems_cons first rest item index) (fails_map.mp h)
    next hitem =>
      -- For a type without items a list is like any other literal, and is left to the named type.
      have hnamed : (SubValue.ofLiteral lenient (.list items) ty).IsNamed :=
        ⟨by rintro ⟨⟩, fun hlist => absurd hlist (TypeRef.itemType?_eq_none_iff.mp hitem)⟩
      exact failsAt_of_coerceLiteralNamed htyped none (by simp) hnamed h
  | object entries =>
    exact failsAt_of_coerceLiteralSingle htyped (some entries) (by simp) (by rintro ⟨⟩) (by rintro ⟨⟩) h
  | number n =>
    exact failsAt_of_coerceLiteralSingle htyped none (by simp) (by cases n <;> rintro ⟨⟩)
      (by cases n <;> rintro ⟨⟩) h
  | bool | string | enum =>
    exact failsAt_of_coerceLiteralSingle htyped none (by simp) (by rintro ⟨⟩) (by rintro ⟨⟩) h

/-- An item of a list fails like any literal, or is a variable without a value. -/
theorem failsAt_of_literalItem
    (h : (coerceLiteralItem types vars literal ty path).Fails error) :
    FailsAt types vars path (.ofLiteral false literal ty) error := by
  rw [coerceLiteralItem] at h
  rcases fails_bind.mp h with hfails | ⟨value, hvalue, hmissing⟩
  · exact failsAt_of_literal htyped hfails
  · cases value with
    | some value => exact absurd hmissing (not_fails_ok _)
    | none =>
      dsimp only at hmissing
      split at hmissing
      next hrequired =>
        -- Only a variable without a value comes to nothing, and as an item it counts as null.
        obtain ⟨name, rfl, hunset⟩ := unset_of_coerceLiteral hvalue
        exact failsAt_of_fault (.null (.inr ⟨rfl, hunset⟩) hrequired) hmissing
      next => exact absurd hmissing (not_fails_ok _)

end Literals

/-! ### The way to an error -/

/-- Values as the engine has them. -/
def IsWellFormed : SubValue → Prop
  | .ofValue _ value _ => value.IsWellFormed
  | .ofLiteral .. => True

theorem isWellFormed_of_mem_items (hsub : sub.IsWellFormed) (hmem : part ∈ sub.items) :
    part.IsWellFormed := by
  -- Only lists have items. Those of a value are well-formed with it, and literals always are.
  cases sub with
  | ofValue lenient value ty =>
    cases value with
    | list items =>
      rw [SubValue.items] at hmem
      split at hmem
      · obtain ⟨raw, hraw, rfl⟩ := List.mem_map.mp hmem
        cases hsub with
        | list hitems => exact hitems raw hraw
      · exact absurd hmem List.not_mem_nil
    | _ => exact absurd hmem List.not_mem_nil
  | ofLiteral lenient literal ty =>
    cases literal with
    | list items =>
      rw [SubValue.items] at hmem
      split at hmem
      · obtain ⟨raw, _, rfl⟩ := List.mem_map.mp hmem
        exact trivial
      · exact absurd hmem List.not_mem_nil
    | _ => exact absurd hmem List.not_mem_nil

theorem isWellFormed_of_given? (hsub : sub.IsWellFormed) (h : sub.given? vars field = some part) :
    part.IsWellFormed := by
  -- Only objects have fields. Those of a value are well-formed with it, and literals always are.
  cases sub with
  | ofValue lenient value ty =>
    cases value with
    | object entries =>
      rw [given?] at h
      obtain ⟨raw, hraw, rfl⟩ := Option.map_eq_some_iff.mp h
      cases hsub with
      | object _ hentries => exact hentries _ (Entries.get?_mem hraw)
    | _ => cases h
  | ofLiteral lenient literal ty =>
    cases literal with
    | object entries =>
      rw [given?] at h
      split at h
      · split at h
        · exact Option.some.inj h ▸ trivial
        · cases h
      · exact Option.some.inj h ▸ trivial
      · cases h
    | _ => cases h

/-- The parts of a sub-value, defaults among them, are values as the engine has them if it is one. -/
theorem Enters.isWellFormed (hdefaults : DefaultsWellFormed types) {path' : ValuePath}
    (h : Enters types vars (path, sub) (path', part)) (hsub : sub.IsWellFormed) : part.IsWellFormed := by
  -- A part is an item, something given for a field, or the default of a field.
  cases h with
  | item hpart _ => exact isWellFormed_of_mem_items hsub (List.mem_of_getElem? hpart)
  | @field _ _ _ object before after field hobject hfields hpart _ =>
    rcases Option.or_eq_some_iff.mp hpart with hgiven | ⟨_, hdefault⟩
    · exact isWellFormed_of_given? hsub hgiven
    · obtain ⟨fallback, hfallback, rfl⟩ := Option.map_eq_some_iff.mp hdefault
      have hmem : field ∈ Entries.values object.fields.entries := by
        rw [hfields]
        exact List.mem_append_right _ List.mem_cons_self
      exact hdefaults object (Entries.mem_values_of_get? hobject.2.2) field hmem fallback hfallback

/-- **A coercion that fails rejects the sub-value itself, or fails in a part that it enters.** -/
theorem failsAt_of_fails (hsub : sub.IsWellFormed)
    (htyped : ∀ name, error.fault ≠ .notAnInputType name)
    (h : (sub.coerce types vars path).Fails error) : FailsAt types vars path sub error := by
  cases sub with
  | ofValue lenient value ty => exact failsAt_of_value htyped hsub (fails_map.mp h)
  | ofLiteral lenient literal ty =>
    cases lenient with
    | true => exact failsAt_of_literal htyped h
    | false => exact failsAt_of_literalItem htyped (fails_map.mp h)

/-- The errors of a coercion are inside of where it is. -/
theorem coerce_failsInside (sub : SubValue) (path : ValuePath) :
    FailsInside path (sub.coerce types vars path) := by
  cases sub with
  | ofValue lenient value ty =>
    exact .map (coerceValue_failsInside coerceConstant_failsInside value lenient ty path) some
  | ofLiteral lenient literal ty =>
    -- A literal in a list has a value anyway: it is null where it would have been left out.
    cases lenient with
    | true => exact coerceLiteral_failsInside literal true ty path
    | false =>
      refine .map (.bind (coerceLiteral_failsInside literal false ty path) fun value => ?_) some
      split
      · exact .ok _
      · split
        · exact .fault _
        · exact .ok _

/-- **The place of an error leads to what is rejected.** Every step that is entered leads one step deeper,
and the place of the error is inside, so the induction is on how far inside it is. -/
theorem exists_reached (hdefaults : DefaultsWellFormed types) (hsub : sub.IsWellFormed)
    (htyped : ∀ name, error.fault ≠ .notAnInputType name)
    (h : (sub.coerce types vars path).Fails error) :
    ∃ found, Relation.ReflTransGen (Enters types vars) (path, sub) (error.path, found) ∧
      Rejects types vars error.path found error.fault := by
  induction hdepth : error.path.length - path.length using Nat.strong_induction_on generalizing path sub with
  | _ depth ih =>
    rcases failsAt_of_fails hsub htyped h with ⟨rfl, hrejects⟩ | ⟨segment, part, henters, hfails⟩
    · exact ⟨sub, .refl, hrejects⟩
    · have hinside := (part.coerce_failsInside (segment :: path) error hfails).length_le
      rw [List.length_cons] at hinside
      obtain ⟨found, hreached, hrejects⟩ := ih (error.path.length - (segment :: path).length)
        (by rw [List.length_cons]; omega) (henters.isWellFormed hdefaults hsub) hfails rfl
      exact ⟨found, .head henters hreached, hrejects⟩

/-- A coercion with a place that moves is where it was when it has a value. Otherwise it has one error,
and the way from the sub-value to the place of that error leads to what is rejected. -/
def LocatesErrors {α : Type} (types : TypeSystem) (vars : Variables) (sub : SubValue)
    (tracked : Tracked α) : Prop :=
  ∀ path, (∃ value, tracked path = .ok (value, path)) ∨
    ∃ fault place found, tracked path = .error (.invalid ⟨fault, place⟩) ∧
      Relation.ReflTransGen (Enters types vars) (path, sub) (place, found) ∧
      Rejects types vars place found fault

/-- Coercions that end, and are asked for input types only, locate their errors. -/
theorem locatesErrors_of_agreesWith {α : Type} {tracked : Tracked α} {placed : ValuePath → Coerced α}
    (hagrees : tracked.AgreesWith placed) (hends : ∀ path, Ends (placed path))
    (htyped : ∀ path, (placed path).IsTyped)
    (hfails : ∀ path error, (placed path).Fails error → (sub.coerce types vars path).Fails error)
    (hdefaults : DefaultsWellFormed types) (hsub : sub.IsWellFormed) :
    LocatesErrors types vars sub tracked := by
  intro path
  rw [hagrees path]
  -- The place has no say in what the coercion ends with.
  cases hplaced : placed path with
  | ok value => exact .inl ⟨value, rfl⟩
  | error failure =>
    cases failure with
    | endless => exact absurd hplaced (hends path)
    | invalid error =>
      -- An error of an input type is none of a type that is not one, so it belongs to a part.
      have hinput : ∀ name, error.fault ≠ .notAnInputType name := fun name heq =>
        htyped path name error.path (by rw [hplaced, ← heq])
      obtain ⟨found, hreached, hrejects⟩ := exists_reached hdefaults hsub hinput (hfails path error hplaced)
      exact .inr ⟨error.fault, error.path, found, rfl, hreached, hrejects⟩

/-- The way to an error of which the place is known. -/
theorem LocatesErrors.exists_reached {α : Type} {tracked : Tracked α} {placed : ValuePath → Coerced α}
    {fault : InputFault} {place : ValuePath} (h : LocatesErrors types vars sub tracked)
    (hagrees : tracked.AgreesWith placed) (hfails : (placed path).Fails ⟨fault, place⟩) :
    ∃ found, Relation.ReflTransGen (Enters types vars) (path, sub) (place, found) ∧
      Rejects types vars place found fault := by
  have htracked : tracked path = .error (.invalid ⟨fault, place⟩) := by
    rw [hagrees path, hfails]
    rfl
  rcases h path with ⟨value, hok⟩ | ⟨fault', place', found, herror, hreached, hrejects⟩
  · cases hok.symm.trans htracked
  · cases herror.symm.trans htracked
    exact ⟨found, hreached, hrejects⟩

end SubValue

end Coercion

open Coercion

/-- The fields of input objects of a schema have input types. -/
theorem SchemaBuilder.inputsClosed_of_finish {builder : SchemaBuilder} {schema : Schema}
    (h : builder.finish = .ok schema) : schema.types.InputsClosed := by
  have haccepted := accepted_of_finish h
  have hdefinitions : schema.types.types = definitions builder.types := by rw [haccepted.types]
  intro name object hobject field hfield
  have hmem : TypeDefinition.inputObject object ∈ Entries.values (definitions builder.types) :=
    hdefinitions ▸ Entries.mem_values_of_get? hobject
  have huses := List.forall_mem_flatMap.mp haccepted.uses _ hmem
  have hinput := (checkUses_eq_ok_iff.mp huses).2 object rfl field hfield
  rw [← hdefinitions] at hinput
  exact TypeSystem.namedTypeIs_iff.mpr hinput

/-- **The place of an error leads to what is rejected.** In a schema that a builder has made, without a
default that comes to itself, take a value or a literal with variables at any input type. The place that is
moved along is back where it was after a coercion that gives a value. One that does not has a single error,
and its place leads from what is coerced, through items, fields and the defaults of fields without a value,
to the sub-value that is rejected, with all items of smaller index and all fields declared earlier accepted
at each step. Coercions that are told their places have the same results. -/
theorem errors_lead_to_rejected {builder : SchemaBuilder} {schema : Schema}
    (hfinish : builder.finish = .ok schema) (hdefaults : DefaultsWellFormed schema.types)
    (hrecurs : ∀ field, ¬ Recurs schema.types field) {ty : TypeRef}
    (hinput : schema.types.namedTypeIs TypeDefinition.isInput ty = true) (vars : Variables) :
    (∀ value : Value, value.IsWellFormed →
      (trackConstant schema.types value ty).AgreesWith (coerceConstant schema.types value ty) ∧
      SubValue.LocatesErrors schema.types vars (.ofValue true value ty)
        (trackConstant schema.types value ty)) ∧
    ∀ literal : Literal,
      (trackLiteral schema.types vars true literal ty).AgreesWith
        (coerceLiteral schema.types vars true literal ty) ∧
      SubValue.LocatesErrors schema.types vars (.ofLiteral true literal ty)
        (trackLiteral schema.types vars true literal ty) := by
  -- Without a default that recurs coercions end, and the input types of a schema only refer to each
  -- other.
  have hends := constantsEnd_iff.mpr hrecurs
  have hclosed := SchemaBuilder.inputsClosed_of_finish hfinish
  constructor
  · intro value hvalue
    have hagrees := @trackConstant_agrees schema.types value ty
    refine ⟨hagrees, SubValue.locatesErrors_of_agreesWith hagrees (hends value ty)
      (fun path => coerceConstant_isTyped hclosed value ty path hinput) (fun path error h => ?_)
      hdefaults hvalue⟩
    rw [coerceConstant_eq] at h
    exact fails_map.mpr h
  · intro literal
    have hagrees := @trackLiteral_agrees schema.types vars literal true ty
    exact ⟨hagrees, SubValue.locatesErrors_of_agreesWith hagrees (coerceLiteral_ends hends literal true ty)
      (fun path => coerceLiteral_isTyped hclosed vars literal true ty path hinput) (fun _ _ h => h)
      hdefaults trivial⟩

/-! ### A page -/

namespace PageSample

/-- The id of what a page comes after. -/
def cursor : InputObjectType where
  name := "Cursor"
  description := none
  fields := .ofList [⟨"id", none, .namedNonNull "ID", none⟩]

/-- A page, whose cursor is an empty object by default. -/
def page : InputObjectType where
  name := "Page"
  description := none
  fields := .ofList [⟨"size", none, .namedNonNull "Int", some (.int 10)⟩,
    ⟨"after", none, .named "Cursor", some (.object [])⟩]

/-- A page as the argument of a field. -/
def query : ObjectType where
  name := "Query"
  description := none
  fields := .ofList [⟨"count", none, .named "Int", .ofList [⟨"page", none, .named "Page", none⟩]⟩]
  interfaces := []
  isTypeOf := none

/-- The types above. -/
def builder : SchemaBuilder :=
  (((SchemaBuilder.new "Query" none none).register ⟨.object query, .none⟩).register
    ⟨.inputObject page, .none⟩).register ⟨.inputObject cursor, .none⟩

/-- The schema that the builder makes. -/
def schema : Schema := builder.finish.toOption.getD ⟨⟨[], "", none, none, []⟩, [], .standard⟩

theorem finish_eq : builder.finish = .ok schema := rfl

theorem values_eq : Entries.values schema.types.types = [.scalar .int, .scalar .float,
    .scalar .string, .scalar .boolean, .scalar .id, .object query, .inputObject page,
    .inputObject cursor] := rfl

theorem defaultsWellFormed : DefaultsWellFormed schema.types := by
  intro object hmem field hfield fallback hfallback
  -- There are two input objects, and one of them has two defaults.
  obtain rfl | rfl : object = page ∨ object = cursor := by simpa [values_eq] using hmem
  · have hfields : Entries.values page.fields.entries =
        [⟨"size", none, .namedNonNull "Int", some (.int 10)⟩,
          ⟨"after", none, .named "Cursor", some (.object [])⟩] := rfl
    rw [hfields] at hfield
    rcases List.mem_pair.mp hfield with rfl | rfl
    · obtain rfl := Option.some.inj hfallback
      exact .number rfl
    · obtain rfl := Option.some.inj hfallback
      exact .object (by decide) fun _ hmem => absurd hmem List.not_mem_nil
  · obtain rfl : field = ⟨"id", none, .namedNonNull "ID", none⟩ := List.mem_singleton.mp hfield
    cases hfallback

/-- Neither of the defaults comes to another one: a cursor has no default for its id. -/
theorem not_recurs (field : InputValueDefinition) : ¬ Recurs schema.types field := by
  intro h
  -- If a default came to itself it would come to some default first, and neither of them does.
  obtain ⟨next, ⟨fallback, hfallback, hcomes⟩, -⟩ := Relation.TransGen.head'_iff.mp h
  have hdefaulted : defaultedFields schema.types =
      [⟨"size", none, .namedNonNull "Int", some (.int 10)⟩,
        ⟨"after", none, .named "Cursor", some (.object [])⟩] := rfl
  have hmem := h.mem_defaultedFields
  rw [hdefaulted, List.mem_pair] at hmem
  rcases hmem with rfl | rfl
  · obtain rfl := Option.some.inj hfallback
    cases hcomes
  · obtain rfl := Option.some.inj hfallback
    cases hcomes with
    | object _ htype hfields =>
      obtain rfl : cursor = _ := TypeDefinition.inputObject.inj (Option.some.inj htype)
      cases hfields with
      | default _ hnone | afterDefault _ hnone => cases hnone
      | given hgiven | afterGiven hgiven => cases hgiven
      | afterAbsent _ _ hnullable => cases hnullable

/-- A page of a size that is not provided, so it has its default, and so has what it comes after. -/
def literal : Literal := .object [("size", .var "size")]

/-- A page after an id that is none. -/
def value : Value := .object [("after", .object [("id", .bool true)])]

end PageSample

/-- The error of the literal is in the default of the field that comes after the variable, and the error of
the value is in the id. -/
theorem errors_lead_to_rejected_sample :
    (coerceLiteral PageSample.schema.types .empty true PageSample.literal (.named "Page") []).Fails
        ⟨.missingRequiredField "Cursor" "id" (.namedNonNull "ID"), [.field "after"]⟩ ∧
      (∃ found, Relation.ReflTransGen (SubValue.Enters PageSample.schema.types .empty)
          ([], .ofLiteral true PageSample.literal (.named "Page")) ([.field "after"], found) ∧
        SubValue.Rejects PageSample.schema.types .empty [.field "after"] found
          (.missingRequiredField "Cursor" "id" (.namedNonNull "ID"))) ∧
      (coerceConstant PageSample.schema.types PageSample.value (.named "Page") []).Fails
        ⟨.incorrectScalarType .boolean "ID", [.field "id", .field "after"]⟩ ∧
      ∃ found, Relation.ReflTransGen (SubValue.Enters PageSample.schema.types .empty)
          ([], .ofValue true PageSample.value (.named "Page")) ([.field "id", .field "after"], found) ∧
        SubValue.Rejects PageSample.schema.types .empty [.field "id", .field "after"] found
          (.incorrectScalarType .boolean "ID") := by
  have hinput : PageSample.schema.types.namedTypeIs TypeDefinition.isInput (.named "Page") = true := rfl
  -- The value is an object in an object, each with distinct keys.
  have hvalue : PageSample.value.IsWellFormed := by
    refine .object (by decide) fun entry hentry => ?_
    obtain rfl := List.mem_singleton.mp hentry
    refine .object (by decide) fun entry hentry => ?_
    obtain rfl := List.mem_singleton.mp hentry
    exact .bool true
  obtain ⟨hvalues, hliterals⟩ := errors_lead_to_rejected PageSample.finish_eq PageSample.defaultsWellFormed
    PageSample.not_recurs hinput .empty
  obtain ⟨hliteral, hliteralLocates⟩ := hliterals PageSample.literal
  obtain ⟨hconstant, hconstantLocates⟩ := hvalues PageSample.value hvalue
  exact ⟨rfl, hliteralLocates.exists_reached hliteral rfl, rfl,
    hconstantLocates.exists_reached hconstant rfl⟩

end GraphQL
