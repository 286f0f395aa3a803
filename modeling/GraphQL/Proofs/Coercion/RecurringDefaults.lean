import GraphQL.Proofs.Coercion.Defaults
import Mathlib.Data.List.Chain
import Mathlib.Data.List.Perm.Subperm
import Mathlib.Logic.Relation

/-!
# Defaults that recur

The coercion of a constant may come to the default of an input field, whose coercion may come to
further defaults. If one of them is that of the first field again, it comes to them without an end,
and no check of a schema rules that out. Nothing else lets a coercion go on: values become smaller, and
without a default that comes to itself there are no more defaults in a row than fields have one.

* `Coerced.Refines`, `coerceValue_refines` — more levels of defaults change a result only where there
  was none yet;
* `ComesTo` — the coercion of a value comes to the default of a field, with everything before it having
  a value, and `ComesTo.declares` — the field is one of an input object;
* `ComesTo.isEndless`, `comesToEndless_of_value` — a coercion has no end exactly where it comes to a
  default that has none;
* `Recurs`, `exists_recurs_of_isChain` — a default comes to itself, as one does in every chain of more
  defaults than there are;
* `coerceConstant_endless_iff` — a coercion has no end exactly if it comes to a default that recurs;
* `coerceConstant_eq` — coercion is the recursion without a limit.
-/

namespace GraphQL

namespace Coerced

variable {α β : Type}

/-- The second coercion has the result of the first one, unless that has no end. -/
def Refines (first second : Coerced α) : Prop := first = .error .endless ∨ first = second

variable {first second third : Coerced α}

theorem Refines.refl (first : Coerced α) : first.Refines first := .inr rfl

theorem Refines.trans (h : first.Refines second) (h' : second.Refines third) :
    first.Refines third := by
  rcases h with h | rfl
  · exact .inl h
  · exact h'

theorem Refines.antisymm (h : first.Refines second) (h' : second.Refines first) :
    first = second := by
  rcases h with rfl | h
  · exact h'.elim Eq.symm Eq.symm
  · exact h

/-- Two coercions that go on with what they have found. -/
theorem Refines.bind {next next' : α → Coerced β} (h : first.Refines second)
    (hnext : ∀ value, (next value).Refines (next' value)) :
    Refines (first >>= next) (second >>= next') := by
  rcases h with rfl | rfl
  · exact .inl rfl
  · cases first with
    | ok value => exact hnext value
    | error failure => exact .refl _

theorem Refines.map (h : first.Refines second) (f : α → β) :
    Refines (first.map f) (second.map f) := by
  rcases h with rfl | rfl
  · exact .inl rfl
  · exact .refl _

end Coerced

namespace CoercionFailure

variable {ε α β : Type}

theorem bind_eq_endless {first : Except (CoercionFailure ε) α}
    {next : α → Except (CoercionFailure ε) β} :
    (first >>= next) = .error .endless ↔
      first = .error .endless ∨ ∃ value, first = .ok value ∧ next value = .error .endless := by
  cases first <;> simp [Bind.bind, Except.bind]

theorem map_eq_endless {first : Except (CoercionFailure ε) α} {f : α → β} :
    first.map f = .error .endless ↔ first = .error .endless := by
  cases first <;> simp [Except.map]

end CoercionFailure

namespace Deferred

/-- The second coercion refines the first one at every type and place. -/
def Refines (first second : Deferred) : Prop := ∀ ty path, (first ty path).Refines (second ty path)

/-- A coercion to a type gives a value at every place. -/
def Succeeds (deferred : Deferred) (ty : TypeRef) : Prop := ∀ path, ∃ value, deferred ty path = .ok value

/-- A coercion to a type has no end at any place. -/
def IsEndless (deferred : Deferred) (ty : TypeRef) : Prop := ∀ path, deferred ty path = .error .endless

variable {first second : Deferred} {ty : TypeRef}

/-- What succeeds with more levels succeeds with less, or comes to the end of them. -/
theorem Refines.of_succeeds (h : first.Refines second) (hsucceeds : second.Succeeds ty)
    (path : ValuePath) :
    first ty path = .error .endless ∨ ∃ value, first ty path = .ok value := by
  obtain ⟨value, hvalue⟩ := hsucceeds path
  exact (h ty path).imp_right fun heq => ⟨value, heq.trans hvalue⟩

theorem Follows.succeeds (h : first.Follows second) {path : ValuePath} {value : Value}
    (hvalue : first ty path = .ok value) : second.Succeeds ty :=
  fun path' => ⟨value, h ty path value hvalue path'⟩

end Deferred

namespace Coercion

/-- A coercion ends, with a value or an error. -/
def Ends {ε α : Type} (result : Except (CoercionFailure ε) α) : Prop := result ≠ .error .endless

namespace Ends

variable {ε ε' α β : Type} {first : Except (CoercionFailure ε) α}

theorem ok (value : α) : Ends (.ok value : Except (CoercionFailure ε) α) := nofun

theorem invalid (error : ε) : Ends (.error (.invalid error) : Except (CoercionFailure ε) α) := nofun

theorem fault (fault : InputFault) (path : ValuePath) : Ends (Coerced.fault fault path : Coerced α) :=
  nofun

theorem bind {next : α → Except (CoercionFailure ε) β} (h : Ends first)
    (hnext : ∀ value, Ends (next value)) : Ends (first >>= next) := fun hendless =>
  (CoercionFailure.bind_eq_endless.mp hendless).elim h fun ⟨value, _, hlater⟩ => hnext value hlater

theorem map (h : Ends first) (f : α → β) : Ends (first.map f) :=
  fun hendless => h (CoercionFailure.map_eq_endless.mp hendless)

theorem mapError (h : Ends first) (f : ε → ε') : Ends (first.mapError (CoercionFailure.map f)) := by
  cases first with
  | ok value => exact .ok value
  | error failure =>
    cases failure with
    | invalid error => exact .invalid _
    | endless => exact absurd rfl h

end Ends

theorem coerceScalar_ends (parse : Value → Except ScalarError Value) (scalar : ScalarType)
    (value : Value) (path : ValuePath) : Ends (coerceScalar parse scalar value path) := by
  rw [coerceScalar]
  split
  · exact .ok _
  · exact .fault _ path

theorem coerceEnumName_ends (type : EnumType) (name : String) (path : ValuePath) :
    Ends (coerceEnumName type name path) := by
  rw [coerceEnumName]
  split
  · exact .ok _
  · exact .fault _ path

variable {types : TypeSystem} {expand expand' : Value → Deferred}

/-! ### More levels of defaults -/

/-- The second expansion of the default of a field refines the first one. -/
def DefaultRefines (expand expand' : Value → Deferred) (field : InputValueDefinition) : Prop :=
  ∀ fallback, field.fallback = some fallback →
    ∀ path, (expand fallback field.type path).Refines (expand' fallback field.type path)

/-- Fields whose given values and whose defaults are refined. The induction is on the declared
fields. The keys are the same on both sides, so the same fields are given, defaulted and missing,
and only what stands under them may differ. -/
theorem coerceFields_refines {coerce coerce' : Value → Deferred} {object : InputObjectType}
    {fields : List InputValueDefinition} {source : Entries Value} (path : ValuePath)
    (hdefaults : ∀ field ∈ fields, DefaultRefines expand expand' field)
    (hsource : ∀ entry ∈ source, (coerce entry.2).Refines (coerce' entry.2)) :
    (coerceFields expand object path fields
        (source.map fun entry => (entry.1, coerce entry.2))).Refines
      (coerceFields expand' object path fields
        (source.map fun entry => (entry.1, coerce' entry.2))) := by
  induction fields generalizing source with
  | nil => cases source <;> exact .refl _
  | cons field fields ih =>
    obtain ⟨hfield, hfields⟩ := List.forall_mem_cons.mp hdefaults
    rw [coerceFields, coerceFields, Entries.get?_map, Entries.get?_map]
    cases hgiven : Entries.get? source field.name with
    -- The field is given: its value is refined, and it leaves both sides.
    | some raw =>
      simp only [Option.map_some, Option.some_or, Option.isSome_some, if_true, Entries.swapErase_map]
      refine (hsource _ (Entries.get?_mem hgiven) _ _).bind fun value => ?_
      exact (ih hfields fun entry hmem => hsource entry (Entries.mem_of_mem_swapErase hmem)).bind
        fun _ => .refl _
    | none =>
      cases hfallback : field.fallback with
      | some fallback =>
        -- The field has its default, which is refined as well.
        refine Coerced.Refines.bind (hfield fallback hfallback _) fun value => ?_
        exact (ih hfields hsource).bind fun _ => .refl _
      | none =>
        -- The field is absent on both sides, or at fault on both sides.
        simp only [Option.map_none, Option.none_or]
        split
        · exact .refl _
        · exact ih hfields hsource

theorem coerceNamed_refines (value : Value) (source : Option (Entries Value))
    (hdefaults : ∀ field ∈ defaultedFields types, DefaultRefines expand expand' field)
    (hsource : ∀ entries, source = some entries → ∀ entry ∈ entries,
      (coerceValue types expand true entry.2).Refines (coerceValue types expand' true entry.2)) :
    (coerceNamed types expand value (source.map (deferEntries types expand))).Refines
      (coerceNamed types expand' value (source.map (deferEntries types expand'))) := by
  intro ty path
  rw [coerceNamed, coerceNamed]
  split
  next => exact .refl _
  next => exact .refl _
  next object htype =>
    -- Only an input object goes on to other values, and only its fields have defaults.
    cases source with
    | none => exact .refl _
    | some entries =>
      simp only [Option.map_some, deferEntries_eq_map]
      refine (coerceFields_refines path (fun field hmem fallback hfallback => ?_)
        (hsource entries rfl)).map _
      exact hdefaults field (mem_defaultedFields htype hmem hfallback) fallback hfallback
  next => exact .refl _

theorem coerceSingle_refines {named named' : Deferred} (h : named.Refines named') (lenient : Bool)
    (kind : ValueKind) :
    (coerceSingle lenient kind named).Refines (coerceSingle lenient kind named') := by
  intro ty path
  rw [coerceSingle, coerceSingle]
  split
  · split
    · exact (h ty path).map _
    · exact .refl _
  · exact h ty path

/-- Values that are neither null nor composite ask for no default. -/
theorem coerceLeaf_refines
    (hdefaults : ∀ field ∈ defaultedFields types, DefaultRefines expand expand' field)
    (value : Value) (lenient : Bool) :
    (coerceSingle lenient value.kind (coerceNamed types expand value none)).Refines
      (coerceSingle lenient value.kind (coerceNamed types expand' value none)) :=
  coerceSingle_refines (coerceNamed_refines value none hdefaults nofun) lenient value.kind

mutual

/-- **A refined expansion of defaults refines coercions.** -/
theorem coerceValue_refines
    (hdefaults : ∀ field ∈ defaultedFields types, DefaultRefines expand expand' field) :
    ∀ (value : Value) (lenient : Bool),
      (coerceValue types expand lenient value).Refines (coerceValue types expand' lenient value)
  | .null, lenient => fun ty path => by
    rw [coerceValue, coerceValue]
    exact .refl _
  | .list items, lenient => fun ty path => by
    rw [coerceValue, coerceValue]
    split
    · exact (coerceItems_refines hdefaults items _ _ _).map _
    · exact coerceNamed_refines (.list items) none hdefaults nofun ty path
  | .object entries, lenient => fun ty path => by
    rw [coerceValue, coerceValue]
    -- The entries are refined by the recursion, whatever the types of their fields are.
    have hnamed := coerceNamed_refines (.object entries) (some entries) hdefaults
      fun _ hsource => Option.some.inj hsource ▸ entries_refine hdefaults entries
    exact coerceSingle_refines hnamed lenient .object ty path
  | .bool b, lenient => coerceLeaf_refines hdefaults (.bool b) lenient
  | .number n, lenient => coerceLeaf_refines hdefaults (.number n) lenient
  | .string s, lenient => coerceLeaf_refines hdefaults (.string s) lenient
  | .enum name, lenient => coerceLeaf_refines hdefaults (.enum name) lenient
  | .binary bytes, lenient => coerceLeaf_refines hdefaults (.binary bytes) lenient

theorem coerceItems_refines
    (hdefaults : ∀ field ∈ defaultedFields types, DefaultRefines expand expand' field) :
    ∀ (items : List Value) (ty : TypeRef) (path : ValuePath) (index : Nat),
      (coerceItems types expand items ty path index).Refines
        (coerceItems types expand' items ty path index)
  | [], _, _, _ => .refl _
  | item :: rest, ty, path, index => by
    rw [coerceItems, coerceItems]
    refine (coerceValue_refines hdefaults item false ty _).bind fun value => ?_
    exact (coerceItems_refines hdefaults rest ty path (index + 1)).bind fun _ => .refl _

theorem entries_refine
    (hdefaults : ∀ field ∈ defaultedFields types, DefaultRefines expand expand' field) :
    ∀ (entries : List (String × Value)), ∀ entry ∈ entries,
      (coerceValue types expand true entry.2).Refines (coerceValue types expand' true entry.2)
  | [], _, hmem => absurd hmem List.not_mem_nil
  | (key, value) :: rest, entry, hmem => by
    rcases List.mem_cons.mp hmem with rfl | hmem
    · exact coerceValue_refines hdefaults value true
    · exact entries_refine hdefaults rest entry hmem

end

/-- More levels refine what less levels give. -/
theorem expandDefault_refines (types : TypeSystem) {few many : Nat} (h : few ≤ many) (value : Value) :
    (expandDefault types few value).Refines (expandDefault types many value) := by
  induction few generalizing many value with
  | zero => exact fun ty path => .inl rfl
  | succ few ih =>
    obtain ⟨many, rfl⟩ : ∃ less, many = less + 1 := ⟨many - 1, by omega⟩
    exact coerceValue_refines (fun field _ fallback _ path =>
      ih (Nat.le_of_succ_le_succ h) fallback field.type path) value true

/-! ### What a coercion comes to -/

/-- What is coerced: a value, the items of a list, or the rest of the fields of an input object with the
values that are left for them. -/
inductive Part where
  | value (lenient : Bool) (value : Value) (ty : TypeRef)
  | items (items : List Value) (ty : TypeRef)
  | fields (fields : List InputValueDefinition) (given : Entries Value)

/-- A coercion comes to the default of a field: everything before it succeeds, and then the field is
absent. -/
inductive ComesTo (types : TypeSystem) (expand : Value → Deferred) :
    Part → InputValueDefinition → Prop
  /-- In the items of a list. -/
  | list {lenient : Bool} {items : List Value} {ty item : TypeRef} {field : InputValueDefinition}
      (hitem : ty.itemType? = some item) (hitems : ComesTo types expand (.items items item) field) :
      ComesTo types expand (.value lenient (.list items) ty) field
  /-- In the fields of an input object. -/
  | object {lenient : Bool} {entries : List (String × Value)} {ty : TypeRef}
      {object : InputObjectType} {field : InputValueDefinition}
      (hlenient : ty.isList = true → lenient = true)
      (htype : types.namedType? ty = some (.inputObject object))
      (hfields : ComesTo types expand (.fields (Entries.values object.fields.entries) entries) field) :
      ComesTo types expand (.value lenient (.object entries) ty) field
  /-- In the first item. -/
  | item {item : Value} {rest : List Value} {ty : TypeRef} {field : InputValueDefinition}
      (hitem : ComesTo types expand (.value false item ty) field) :
      ComesTo types expand (.items (item :: rest) ty) field
  /-- In a later item. -/
  | laterItem {item : Value} {rest : List Value} {ty : TypeRef} {field : InputValueDefinition}
      (hsucceeds : (coerceValue types expand false item).Succeeds ty)
      (hrest : ComesTo types expand (.items rest ty) field) :
      ComesTo types expand (.items (item :: rest) ty) field
  /-- The first field is absent. -/
  | default {field : InputValueDefinition} {rest : List InputValueDefinition} {given : Entries Value}
      {fallback : Value} (hgiven : Entries.get? given field.name = none)
      (hfallback : field.fallback = some fallback) :
      ComesTo types expand (.fields (field :: rest) given) field
  /-- In the value of the first field. -/
  | given {first field : InputValueDefinition} {rest : List InputValueDefinition}
      {given : Entries Value} {value : Value} (hgiven : Entries.get? given first.name = some value)
      (hvalue : ComesTo types expand (.value true value first.type) field) :
      ComesTo types expand (.fields (first :: rest) given) field
  /-- In a later field, if the first one is given. -/
  | afterGiven {first field : InputValueDefinition} {rest : List InputValueDefinition}
      {given : Entries Value} {value : Value} (hgiven : Entries.get? given first.name = some value)
      (hsucceeds : (coerceValue types expand true value).Succeeds first.type)
      (hrest : ComesTo types expand (.fields rest (Entries.swapErase given first.name)) field) :
      ComesTo types expand (.fields (first :: rest) given) field
  /-- In a later field, if the first one gets its default. -/
  | afterDefault {first field : InputValueDefinition} {rest : List InputValueDefinition}
      {given : Entries Value} {fallback : Value} (hgiven : Entries.get? given first.name = none)
      (hfallback : first.fallback = some fallback)
      (hsucceeds : (expand fallback).Succeeds first.type)
      (hrest : ComesTo types expand (.fields rest given) field) :
      ComesTo types expand (.fields (first :: rest) given) field
  /-- In a later field, if the first one is left out. -/
  | afterAbsent {first field : InputValueDefinition} {rest : List InputValueDefinition}
      {given : Entries Value} (hgiven : Entries.get? given first.name = none)
      (hfallback : first.fallback = none) (hnullable : first.type.isNonNull = false)
      (hrest : ComesTo types expand (.fields rest given) field) :
      ComesTo types expand (.fields (first :: rest) given) field

section ComesTo

variable {part : Part} {field : InputValueDefinition}

/-- A coercion comes to no fewer defaults when more values are found. -/
theorem ComesTo.mono (hexpand : ∀ value, (expand value).Follows (expand' value))
    (h : ComesTo types expand part field) : ComesTo types expand' part field := by
  have hvalue : ∀ lenient value, (coerceValue types expand lenient value).Follows
      (coerceValue types expand' lenient value) := fun lenient value =>
    coerceValue_follows (fun _ _ fallback _ path => hexpand fallback _ path) value lenient
  -- What has succeeded before the default is come to, succeeds with more values as well.
  have hsucceeds : ∀ {first second : Deferred} {ty : TypeRef}, first.Follows second →
      first.Succeeds ty → second.Succeeds ty := fun hfollows hfirst =>
    hfollows.succeeds (hfirst []).choose_spec
  induction h with
  | list hitem _ ih => exact .list hitem ih
  | object hlenient htype _ ih => exact .object hlenient htype ih
  | item _ ih => exact .item ih
  | laterItem hfirst _ ih => exact .laterItem (hsucceeds (hvalue _ _) hfirst) ih
  | default hgiven hfallback => exact .default hgiven hfallback
  | given hgiven _ ih => exact .given hgiven ih
  | afterGiven hgiven hfirst _ ih => exact .afterGiven hgiven (hsucceeds (hvalue _ _) hfirst) ih
  | afterDefault hgiven hfallback hfirst _ ih =>
    exact .afterDefault hgiven hfallback (hsucceeds (hexpand _) hfirst) ih
  | afterAbsent hgiven hfallback hnullable _ ih => exact .afterAbsent hgiven hfallback hnullable ih

/-- The fields whose defaults the coercion of a part may come to. -/
def Part.Declares (types : TypeSystem) : Part → InputValueDefinition → Prop
  | .value _ _ _, field | .items _ _, field => field ∈ defaultedFields types
  | .fields all _, field =>
      field ∈ defaultedFields types ∨ (field ∈ all ∧ ∃ fallback, field.fallback = some fallback)

/-- **A coercion only comes to declared defaults.** The induction is on how the default is come to. -/
theorem ComesTo.declares (h : ComesTo types expand part field) : part.Declares types field := by
  induction h with
  | list _ _ ih | item _ ih | laterItem _ _ ih => exact ih
  | object _ htype _ ih =>
    obtain hmem | ⟨hmem, fallback, hfallback⟩ := ih
    · exact hmem
    -- The field is declared by the object, and it has a default.
    · exact mem_defaultedFields htype hmem hfallback
  | default _ hfallback => exact .inr ⟨List.mem_cons_self, _, hfallback⟩
  | given _ _ ih => exact .inl ih
  | afterGiven _ _ _ ih | afterDefault _ _ _ _ ih | afterAbsent _ _ _ _ ih =>
    exact ih.imp_right fun hlater => hlater.imp_left (List.mem_cons_of_mem _)

/-- The coercion of a part has no end, at any place. -/
def Part.IsEndless (types : TypeSystem) (expand : Value → Deferred) : Part → Prop
  | .value lenient raw ty => (coerceValue types expand lenient raw).IsEndless ty
  | .items all ty => ∀ path index, coerceItems types expand all ty path index = .error .endless
  | .fields all given => ∀ object path,
      coerceFields expand object path all (deferEntries types expand given) = .error .endless

/-- The default of a field has no end. -/
def DefaultEndless (expand : Value → Deferred) (field : InputValueDefinition) : Prop :=
  ∀ fallback, field.fallback = some fallback → (expand fallback).IsEndless field.type

/-- **A coercion that comes to a default without an end has no end.** What succeeds before the default
with more levels succeeds, or has no end, with less. The induction is on how the default is come to. -/
theorem ComesTo.isEndless (hexpand : ∀ value, (expand' value).Refines (expand value))
    (h : ComesTo types expand part field) (hfield : DefaultEndless expand' field) :
    part.IsEndless types expand' := by
  -- Before the default, coercions with fewer levels do as those with more, or have no end
  -- themselves.
  have hvalue : ∀ lenient value, (coerceValue types expand' lenient value).Refines
      (coerceValue types expand lenient value) := fun lenient value =>
    coerceValue_refines (fun _ _ fallback _ path => hexpand fallback _ path) value lenient
  induction h with
  | list hitem _ ih =>
    intro path
    rw [coerceValue, hitem]
    exact CoercionFailure.map_eq_endless.mpr (ih hfield path 0)
  | @object lenient entries ty object _ hlenient htype _ ih =>
    intro path
    -- A type of lists accepts the object as a list of one; either way its fields are coerced.
    have hnamed : coerceNamed types expand' (.object entries)
        (some (deferEntries types expand' entries)) ty path = .error .endless := by
      rw [coerceNamed, htype]
      exact CoercionFailure.map_eq_endless.mpr (ih hfield object path)
    rw [coerceValue, coerceSingle]
    split
    next hlist =>
      rw [if_pos (hlenient hlist)]
      exact CoercionFailure.map_eq_endless.mpr hnamed
    next => exact hnamed
  | item _ ih =>
    intro path index
    rw [coerceItems]
    exact CoercionFailure.bind_eq_endless.mpr (.inl (ih hfield _))
  | laterItem hfirst _ ih =>
    intro path index
    rw [coerceItems]
    -- The items before this one have values or no end; in both cases the list has no end.
    refine CoercionFailure.bind_eq_endless.mpr (((hvalue _ _).of_succeeds hfirst _).imp_right ?_)
    rintro ⟨value, hok⟩
    exact ⟨value, hok, CoercionFailure.bind_eq_endless.mpr (.inl (ih hfield _ _))⟩
  | default hgiven hfallback =>
    intro object path
    -- The default is expanded for the field, and that has no end.
    rw [coerceFields, deferEntries_eq_map, Entries.get?_map, hgiven, hfallback]
    exact CoercionFailure.bind_eq_endless.mpr (.inl (hfield _ hfallback _))
  | given hgiven _ ih =>
    intro object path
    rw [coerceFields, deferEntries_eq_map, Entries.get?_map, hgiven]
    exact CoercionFailure.bind_eq_endless.mpr (.inl (ih hfield _))
  | afterGiven hgiven hfirst _ ih =>
    intro object path
    rw [coerceFields, deferEntries_eq_map, Entries.get?_map, hgiven]
    -- The field before this one has a value or no end.
    refine CoercionFailure.bind_eq_endless.mpr (((hvalue _ _).of_succeeds hfirst _).imp_right ?_)
    rintro ⟨value, hok⟩
    refine ⟨value, hok, CoercionFailure.bind_eq_endless.mpr (.inl ?_)⟩
    -- With a value it leaves what is given, and the rest is as it was come to.
    rw [if_pos (by rfl), Entries.swapErase_map, ← deferEntries_eq_map]
    exact ih hfield object path
  | afterDefault hgiven hfallback hfirst _ ih =>
    intro object path
    rw [coerceFields, deferEntries_eq_map, Entries.get?_map, hgiven, hfallback]
    -- The default of the field before this one has a value or no end.
    refine CoercionFailure.bind_eq_endless.mpr (((hexpand _).of_succeeds hfirst _).imp_right ?_)
    rintro ⟨value, hok⟩
    refine ⟨value, hok, CoercionFailure.bind_eq_endless.mpr (.inl ?_)⟩
    rw [if_neg (by simp), ← deferEntries_eq_map]
    exact ih hfield object path
  | afterAbsent hgiven hfallback hnullable _ ih =>
    intro object path
    rw [coerceFields, deferEntries_eq_map, Entries.get?_map, hgiven, hfallback]
    -- The field before this one is absent, and may be.
    simp only [Option.map_none, Option.or_none, hnullable]
    rw [← deferEntries_eq_map]
    exact ih hfield object path

end ComesTo

/-- A coercion comes to a field with a default that has no end at some place. -/
def ComesToEndless (types : TypeSystem) (expand : Value → Deferred) (part : Part) : Prop :=
  ∃ field ∈ defaultedFields types, ∃ fallback, field.fallback = some fallback ∧
    ComesTo types expand part field ∧ ∃ path, expand fallback field.type path = .error .endless

/-- What comes to the defaults that another part comes to. -/
theorem ComesToEndless.imp {part part' : Part} (h : ComesToEndless types expand part)
    (hcomes : ∀ field, ComesTo types expand part field → ComesTo types expand part' field) :
    ComesToEndless types expand part' := by
  obtain ⟨field, hmem, fallback, hfallback, hfield, hpath⟩ := h
  exact ⟨field, hmem, fallback, hfallback, hcomes field hfield, hpath⟩

section Endless

variable (hexpand : ∀ value, (expand value).Follows (expand value))
include hexpand

/-- The fields of an input object whose coercion has no end. The induction is on the fields: the
first one whose value has no end is come to, since the fields before it have succeeded. -/
theorem comesToEndless_fields {object : InputObjectType} {fields : List InputValueDefinition}
    {source : Entries Value} {path : ValuePath}
    (hdeclared : ∀ field ∈ fields, field.fallback.isSome → field ∈ defaultedFields types)
    (hsource : ∀ entry ∈ source, ∀ ty path,
      coerceValue types expand true entry.2 ty path = .error .endless →
        ComesToEndless types expand (.value true entry.2 ty))
    (h : coerceFields expand object path fields (deferEntries types expand source) =
      .error .endless) : ComesToEndless types expand (.fields fields source) := by
  have hvalue : ∀ value, (coerceValue types expand true value).Follows
      (coerceValue types expand true value) := fun value =>
    coerceValue_follows (fun _ _ fallback _ path => hexpand fallback _ path) value true
  induction fields generalizing source with
  | nil =>
    -- What is left over would be a fault, and not without an end.
    cases source with
    | nil => exact absurd h (Ends.ok _)
    | cons => exact absurd h (Ends.fault _ _)
  | cons first rest ih =>
    obtain ⟨hfirst, hrest⟩ := List.forall_mem_cons.mp hdeclared
    rw [coerceFields, deferEntries_eq_map, Entries.get?_map] at h
    cases hgiven : Entries.get? source first.name with
    | some raw =>
      rw [hgiven] at h
      -- Either the value that is given has no end, or the fields behind it have none.
      rcases CoercionFailure.bind_eq_endless.mp h with hendless | ⟨value, hok, hlater⟩
      · have hcomes := hsource _ (Entries.get?_mem hgiven) _ _ hendless
        exact hcomes.imp fun _ => .given hgiven
      · rcases CoercionFailure.bind_eq_endless.mp hlater with hendless | ⟨_, _, hreturned⟩
        -- The default is behind this field, so the field has a value.
        · rw [if_pos (by rfl), Entries.swapErase_map, ← deferEntries_eq_map] at hendless
          have hcomes := ih hrest
            (fun entry hentry => hsource entry (Entries.mem_of_mem_swapErase hentry)) hendless
          exact hcomes.imp fun _ => .afterGiven hgiven ((hvalue raw).succeeds hok)
        · exact absurd hreturned (Ends.ok _)
    | none =>
      cases hfallback : first.fallback with
      | some fallback =>
        rw [hgiven, hfallback] at h
        -- Either the default itself has no end, and is come to here, or the fields behind it have
        -- none.
        rcases CoercionFailure.bind_eq_endless.mp h with hendless | ⟨value, hok, hlater⟩
        · exact ⟨first, hfirst (hfallback ▸ rfl), fallback, hfallback, .default hgiven hfallback, _,
            hendless⟩
        · rcases CoercionFailure.bind_eq_endless.mp hlater with hendless | ⟨_, _, hreturned⟩
          · rw [if_neg (by simp), ← deferEntries_eq_map] at hendless
            have hsucceeds := (hexpand fallback).succeeds hok
            exact (ih hrest hsource hendless).imp fun _ => .afterDefault hgiven hfallback hsucceeds
          · exact absurd hreturned (Ends.ok _)
      | none =>
        rw [hgiven, hfallback] at h
        simp only [Option.map_none, Option.or_none] at h
        split at h
        next => exact absurd h (Ends.fault _ _)
        next hnullable =>
          rw [← deferEntries_eq_map] at h
          -- The field is absent, so the default is behind it.
          have hnullable' : first.type.isNonNull = false := Bool.eq_false_iff.mpr hnullable
          exact (ih hrest hsource h).imp fun _ => .afterAbsent hgiven hfallback hnullable'

/-- A coercion to a named type has no end only where the fields of an input object have none. -/
theorem comesToEndless_object {lenient : Bool} {entries : List (String × Value)} {ty : TypeRef}
    {path : ValuePath}
    (hsource : ∀ entry ∈ entries, ∀ ty path,
      coerceValue types expand true entry.2 ty path = .error .endless →
        ComesToEndless types expand (.value true entry.2 ty))
    (hlenient : ty.isList = true → lenient = true)
    (h : coerceNamed types expand (.object entries) (some (deferEntries types expand entries)) ty path =
      .error .endless) : ComesToEndless types expand (.value lenient (.object entries) ty) := by
  rw [coerceNamed] at h
  split at h
  -- Only an input object goes on to other values.
  next scalar _ => exact absurd h (coerceScalar_ends _ scalar _ path)
  next => exact absurd h (Ends.fault _ path)
  next object htype =>
    -- Every field of it that has a default is among those that are declared.
    have hdeclared : ∀ field ∈ Entries.values object.fields.entries, field.fallback.isSome →
        field ∈ defaultedFields types := by
      intro field hmem hsome
      obtain ⟨fallback, hfallback⟩ := Option.isSome_iff_exists.mp hsome
      exact mem_defaultedFields htype hmem hfallback
    have hcomes := comesToEndless_fields hexpand hdeclared hsource (CoercionFailure.map_eq_endless.mp h)
    exact hcomes.imp fun _ => .object hlenient htype
  next => exact absurd h (Ends.fault _ path)

omit hexpand in
/-- Without fields that are given there is no default to come to. -/
theorem coerceNamed_none_ends (value : Value) (ty : TypeRef) (path : ValuePath) :
    Ends (coerceNamed types expand value none ty path) := by
  rw [coerceNamed]
  split
  next scalar _ => exact coerceScalar_ends _ scalar value path
  next type _ =>
    split
    · exact coerceEnumName_ends type _ path
    · exact coerceEnumName_ends type _ path
    · exact .fault _ path
  next => exact .fault _ path
  next => exact .fault _ path

omit hexpand in
theorem coerceLeaf_ends (value : Value) (lenient : Bool) (ty : TypeRef) (path : ValuePath) :
    Ends (coerceSingle lenient value.kind (coerceNamed types expand value none) ty path) := by
  rw [coerceSingle]
  split
  · split
    · exact .map (coerceNamed_none_ends value ty path) _
    · exact .fault _ path
  · exact coerceNamed_none_ends value ty path

end Endless

mutual

/-- **A coercion without an end comes to a default without an end.** The recursion is that of the
value. A value is finite, so what goes on for ever must be a default; it is the first one that is
reached and does not end. -/
theorem comesToEndless_of_value (hexpand : ∀ value, (expand value).Follows (expand value)) :
    ∀ (value : Value) (lenient : Bool) (ty : TypeRef) (path : ValuePath),
      coerceValue types expand lenient value ty path = .error .endless →
        ComesToEndless types expand (.value lenient value ty)
  | .null, lenient, ty, path => fun h => by
    rw [coerceValue] at h
    split at h
    · exact absurd h (Ends.fault _ path)
    · exact absurd h (Ends.ok _)
  | .list items, lenient, ty, path => fun h => by
    rw [coerceValue] at h
    -- Without lists in the type, a list is a fault.
    split at h
    next item hitem =>
      have hcomes :=
        comesToEndless_of_items hexpand items item path 0 (CoercionFailure.map_eq_endless.mp h)
      exact hcomes.imp fun _ => .list hitem
    next => exact absurd h (coerceNamed_none_ends _ _ _)
  | .object entries, lenient, ty, path => fun h => by
    have hsource := comesToEndless_of_entries hexpand entries
    -- The type accepts the object as it is or as a list of one; otherwise it is a fault.
    rw [coerceValue, coerceSingle] at h
    split at h
    next hlist =>
      split at h
      next hlenient =>
        exact comesToEndless_object hexpand hsource (fun _ => hlenient) (CoercionFailure.map_eq_endless.mp h)
      next => exact absurd h (Ends.fault _ path)
    next hlist => exact comesToEndless_object hexpand hsource (fun hlist' => absurd hlist' hlist) h
  | .bool b, lenient, ty, path => fun h => absurd h (coerceLeaf_ends (.bool b) _ _ _)
  | .number n, lenient, ty, path => fun h => absurd h (coerceLeaf_ends (.number n) _ _ _)
  | .string s, lenient, ty, path => fun h => absurd h (coerceLeaf_ends (.string s) _ _ _)
  | .enum name, lenient, ty, path => fun h => absurd h (coerceLeaf_ends (.enum name) _ _ _)
  | .binary bytes, lenient, ty, path => fun h => absurd h (coerceLeaf_ends (.binary bytes) _ _ _)

theorem comesToEndless_of_items (hexpand : ∀ value, (expand value).Follows (expand value)) :
    ∀ (items : List Value) (ty : TypeRef) (path : ValuePath) (index : Nat),
      coerceItems types expand items ty path index = .error .endless →
        ComesToEndless types expand (.items items ty)
  | [], ty, path, index => fun h => absurd h (Ends.ok _)
  | item :: rest, ty, path, index => fun h => by
    rw [coerceItems] at h
    -- Either this item has no end, or it has a value and an item behind it has none.
    rcases CoercionFailure.bind_eq_endless.mp h with hendless | ⟨value, hok, hlater⟩
    · have hcomes := comesToEndless_of_value hexpand item false ty _ hendless
      exact hcomes.imp fun _ => .item
    · rcases CoercionFailure.bind_eq_endless.mp hlater with hendless | ⟨_, _, hreturned⟩
      · have hcomes := comesToEndless_of_items hexpand rest ty path (index + 1) hendless
        have hitem : (coerceValue types expand false item).Follows
            (coerceValue types expand false item) :=
          coerceValue_follows (fun _ _ fallback _ path => hexpand fallback _ path) item false
        exact hcomes.imp fun _ => .laterItem (hitem.succeeds hok)
      · exact absurd hreturned (Ends.ok _)

theorem comesToEndless_of_entries (hexpand : ∀ value, (expand value).Follows (expand value)) :
    ∀ (entries : List (String × Value)), ∀ entry ∈ entries, ∀ ty path,
      coerceValue types expand true entry.2 ty path = .error .endless →
        ComesToEndless types expand (.value true entry.2 ty)
  | [], _, hmem => absurd hmem List.not_mem_nil
  | (key, value) :: rest, entry, hmem => by
    rcases List.mem_cons.mp hmem with rfl | hmem
    · exact comesToEndless_of_value hexpand value true
    · exact comesToEndless_of_entries hexpand rest entry hmem

end

/-! ### Defaults that come to themselves -/

/-- The coercion of the default of a field comes to the default of another one. -/
def DefaultComesTo (types : TypeSystem) (field next : InputValueDefinition) : Prop :=
  ∃ fallback, field.fallback = some fallback ∧
    ComesTo types (coerceConstant types) (.value true fallback field.type) next

/-- The default of a field comes to itself, at once or through other defaults. -/
def Recurs (types : TypeSystem) (field : InputValueDefinition) : Prop :=
  Relation.TransGen (DefaultComesTo types) field field

/-- A default that recurs is that of an input object of the type system. -/
theorem Recurs.mem_defaultedFields {field : InputValueDefinition} (h : Recurs types field) :
    field ∈ defaultedFields types := by
  obtain ⟨_, -, _, -, hcomes⟩ := Relation.TransGen.tail'_iff.mp h
  exact hcomes.declares

/-- The coercion of a value comes to a default that recurs, at once or through other defaults. -/
def ComesToRecurring (types : TypeSystem) (value : Value) (ty : TypeRef) : Prop :=
  ∃ field recurring, ComesTo types (coerceConstant types) (.value true value ty) field ∧
    Relation.ReflTransGen (DefaultComesTo types) field recurring ∧ Recurs types recurring

section Recurring

variable {field : InputValueDefinition}

/-- A coercion that has no end within some levels comes to as many defaults, one after the other. The
induction is on the levels. -/
theorem exists_chain {levels : Nat} (hlevels : levels ≤ (defaultedFields types).length + 1)
    {value : Value} {ty : TypeRef} {path : ValuePath}
    (h : expandDefault types levels value ty path = .error .endless) :
    ∃ chain : List InputValueDefinition, chain.length = levels ∧ chain ⊆ defaultedFields types ∧
      chain.IsChain (DefaultComesTo types) ∧
      ∀ field ∈ chain.head?, ComesTo types (coerceConstant types) (.value true value ty) field := by
  induction levels generalizing value ty path with
  | zero => exact ⟨[], rfl, List.nil_subset _, .nil, nofun⟩
  | succ levels ih =>
    -- Some default is come to that has no end with one level less, so there is a chain of these
    -- from it.
    obtain ⟨field, hmem, fallback, hfallback, hcomes, path', hendless⟩ :=
      comesToEndless_of_value (fun value => expandDefault_follows types (Nat.le_refl levels) value)
        value true ty path h
    obtain ⟨chain, hlength, hdeclared, hchain, hhead⟩ := ih (by omega) hendless
    -- It is come to with all levels as well, since these only find more values.
    have hlater : ComesTo types (coerceConstant types) (.value true value ty) field :=
      hcomes.mono fun value => expandDefault_follows types (by omega) value
    refine ⟨field :: chain, congrArg (· + 1) hlength, List.cons_subset.mpr ⟨hmem, hdeclared⟩, ?_,
      fun first hfirst => Option.some.inj hfirst ▸ hlater⟩
    exact List.isChain_cons.mpr ⟨fun next hnext => ⟨fallback, hfallback, hhead next hnext⟩, hchain⟩

/-- Among more fields than there are with defaults, each of which comes to the next one, one recurs. -/
theorem exists_recurs_of_isChain {chain : List InputValueDefinition}
    (hdeclared : field :: chain ⊆ defaultedFields types)
    (hchain : (field :: chain).IsChain (DefaultComesTo types))
    (hlength : (defaultedFields types).length < (field :: chain).length) :
    ∃ recurring, Relation.ReflTransGen (DefaultComesTo types) field recurring ∧
      Recurs types recurring := by
  by_contra hnone
  push Not at hnone
  -- Otherwise the fields of the chain are distinct, and there are too many of them.
  have hpairwise : (field :: chain).Pairwise (Relation.TransGen (DefaultComesTo types)) :=
    List.isChain_iff_pairwise.mp (hchain.imp fun _ _ => .single)
  have hreached : ∀ next ∈ field :: chain, Relation.ReflTransGen (DefaultComesTo types) field next := by
    intro next hmem
    rcases List.mem_cons.mp hmem with rfl | hmem
    · exact .refl
    · exact (List.rel_of_pairwise_cons hpairwise hmem).to_reflTransGen
  have hnodup : (field :: chain).Nodup := by
    refine hpairwise.imp_of_mem fun hmem _ hpath heq => hnone _ (hreached _ hmem) ?_
    exact heq ▸ hpath
  exact absurd (List.subperm_of_subset hnodup hdeclared).length_le (Nat.not_le.mpr hlength)

/-- A default that recurs has no end within any number of levels up to that of `coerceConstant`. -/
theorem Recurs.endless {levels : Nat} (hlevels : levels ≤ (defaultedFields types).length + 1)
    (h : Recurs types field) : DefaultEndless (expandDefault types levels) field := by
  induction levels generalizing field with
  | zero => exact fun _ _ _ => rfl
  | succ levels ih =>
    -- The next default on the way back recurs as well, and has one level less.
    obtain ⟨next, hnext, hback⟩ := Relation.TransGen.head'_iff.mp h
    have hrecurs : Recurs types next := .tail' hback hnext
    obtain ⟨fallback, hfallback, hcomes⟩ := hnext
    intro fallback' hfallback'
    obtain rfl := Option.some.inj (hfallback.symm.trans hfallback')
    exact hcomes.isEndless (fun value => expandDefault_refines types (by omega) value)
      (ih (by omega) hrecurs)

/-- What comes to a default without an end has none either. -/
theorem endless_of_reaches {recurring : InputValueDefinition} {levels : Nat}
    (hlevels : levels ≤ (defaultedFields types).length + 1)
    (hpath : Relation.ReflTransGen (DefaultComesTo types) field recurring)
    (h : Recurs types recurring) : DefaultEndless (expandDefault types levels) field := by
  -- The induction is on the way to the default that recurs, from its far end; each step takes a
  -- level.
  induction hpath using Relation.ReflTransGen.head_induction_on generalizing levels with
  | refl => exact h.endless hlevels
  | head hnext _ ih =>
    cases levels with
    | zero => exact fun _ _ _ => rfl
    | succ levels =>
      obtain ⟨fallback, hfallback, hcomes⟩ := hnext
      intro fallback' hfallback'
      -- Each field has one default.
      obtain rfl := Option.some.inj (hfallback.symm.trans hfallback')
      exact hcomes.isEndless (fun value => expandDefault_refines types (by omega) value)
        (ih (by omega))

/-- **A coercion has no end exactly if it comes to a default that recurs.** -/
theorem coerceConstant_endless_iff {value : Value} {ty : TypeRef} {path : ValuePath} :
    coerceConstant types value ty path = .error .endless ↔ ComesToRecurring types value ty := by
  constructor
  · intro h
    -- There is a chain of more defaults than there are fields with one, so one of them comes again.
    obtain ⟨chain, hlength, hdeclared, hchain, hhead⟩ := exists_chain (Nat.le_refl _) h
    cases chain with
    | nil => cases hlength
    | cons field chain =>
      obtain ⟨recurring, hpath, hrecurs⟩ :=
        exists_recurs_of_isChain hdeclared hchain (by omega)
      exact ⟨field, recurring, hhead field rfl, hpath, hrecurs⟩
  · rintro ⟨field, recurring, hcomes, hpath, hrecurs⟩
    exact hcomes.isEndless (fun value => expandDefault_refines types (Nat.le_succ _) value)
      (endless_of_reaches (Nat.le_succ _) hpath hrecurs) path

/-- The last level makes no difference to a default. -/
theorem expandDefault_length_eq {fallback : Value} (hmem : field ∈ defaultedFields types)
    (hfallback : field.fallback = some fallback) (path : ValuePath) :
    expandDefault types (defaultedFields types).length fallback field.type path =
      coerceConstant types fallback field.type path := by
  refine (expandDefault_refines types (Nat.le_succ _) fallback field.type path).elim (fun h => ?_) id
  -- Without an end it comes to as many defaults as there are, so with its own there are too many.
  obtain ⟨chain, hlength, hdeclared, hchain, hhead⟩ := exists_chain (Nat.le_succ _) h
  have hextended : (field :: chain).IsChain (DefaultComesTo types) :=
    List.isChain_cons.mpr ⟨fun next hnext => ⟨fallback, hfallback, hhead next hnext⟩, hchain⟩
  obtain ⟨recurring, hpath, hrecurs⟩ := exists_recurs_of_isChain
    (List.cons_subset.mpr ⟨hmem, hdeclared⟩) hextended (by rw [List.length_cons]; omega)
  exact h.trans (endless_of_reaches (Nat.le_refl _) hpath hrecurs fallback hfallback path).symm

/-- **Coercion is the recursion without a limit**: defaults are coerced like the values they stand for,
and how many levels there are is never what decides. -/
theorem coerceConstant_eq (types : TypeSystem) (value : Value) (ty : TypeRef) (path : ValuePath) :
    coerceConstant types value ty path = coerceValue types (coerceConstant types) true value ty path := by
  refine Coerced.Refines.antisymm ?_ ?_
  · refine coerceValue_refines (fun field hmem fallback hfallback path => ?_) value true ty path
    exact .inr (expandDefault_length_eq hmem hfallback path)
  · refine coerceValue_refines (fun field hmem fallback hfallback path => ?_) value true ty path
    exact .inr (expandDefault_length_eq hmem hfallback path).symm

end Recurring

end Coercion

end GraphQL
