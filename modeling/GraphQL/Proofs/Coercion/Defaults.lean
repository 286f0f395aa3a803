import GraphQL.Coercion.Constant
import GraphQL.Proofs.Entries

/-!
# Defaults of input objects

Coercing a constant expands the defaults of the input objects that it reaches, and the expansion is
bounded by a number of levels. The bound is never what decides: a level that lets no further default
be expanded is followed by levels that do not either, and there are no more defaults than levels.

The levels are made to settle by a pigeonhole argument. With one level more, defaults that had a
value keep it, and others may get one. There are finitely many declared defaults, so one of the
levels adds none, and after that no level does.

* `Deferred.Follows` — one coercion gives every value that another one gives;
* `Coercion.coerceValue_follows` — a coercion depends on the expansion of defaults only through the
  fields that have one;
* `Coercion.expandDefault_follows_succ` — more levels keep every value;
* `Coercion.defaults_settle` — a level less than `Coercion.coerceConstant` has gives the same values.
-/

namespace GraphQL

/-- The second coercion gives every value that the first one gives, whatever the place. -/
def Deferred.Follows (first second : Deferred) : Prop :=
  ∀ ty path value, first ty path = .ok value → ∀ path', second ty path' = .ok value

namespace Coercion

variable {types : TypeSystem} {expand expand' : Value → Deferred}

/-! ### Coercions that are faults or values -/

theorem fault_ne_ok {α : Type} {fault : InputFault} {path : ValuePath} {value : α} :
    (Coerced.fault fault path : Coerced α) ≠ .ok value := nofun

/-- A coercion that goes on with a value gives one if both parts do. -/
theorem coerced_bind_eq_ok {α β : Type} {first : Coerced α} {next : α → Coerced β} {result : β} :
    (first >>= next) = .ok result ↔ ∃ value, first = .ok value ∧ next value = .ok result := by
  cases first <;> simp [bind, Except.bind]

theorem coerced_map_eq_ok {α β : Type} {first : Coerced α} {f : α → β} {result : β} :
    first.map f = .ok result ↔ ∃ value, first = .ok value ∧ f value = result := by
  cases first <;> simp [Except.map]

theorem coerceScalar_eq_ok {parse : Value → Except ScalarError Value} {scalar : ScalarType}
    {value result : Value} {path : ValuePath} :
    coerceScalar parse scalar value path = .ok result ↔ parse value = .ok result := by
  rw [coerceScalar]
  cases parse value with
  | ok parsed =>
    exact ⟨fun h => congrArg _ (Except.ok.inj h), fun h => congrArg _ (Except.ok.inj h)⟩
  | error error => exact ⟨fun h => absurd h fault_ne_ok, fun h => nomatch h⟩

theorem coerceEnumName_eq_ok {type : EnumType} {name : String} {result : Value} {path : ValuePath} :
    coerceEnumName type name path = .ok result ↔ type.parse? name = some result := by
  rw [coerceEnumName]
  cases type.parse? name with
  | some value => exact ⟨fun h => congrArg some (Except.ok.inj h), fun h =>
      congrArg Except.ok (Option.some.inj h)⟩
  | none => exact ⟨fun h => absurd h fault_ne_ok, fun h => nomatch h⟩

/-! ### What the expansion of defaults contributes -/

/-- The second expansion gives the default of a field every value that the first one gives. -/
def DefaultFollows (expand expand' : Value → Deferred) (field : InputValueDefinition) : Prop :=
  ∀ fallback, field.fallback = some fallback →
    ∀ path value, expand fallback field.type path = .ok value →
      ∀ path', expand' fallback field.type path' = .ok value

/-- A field of an input object that has a default is among the fields with defaults. -/
theorem mem_defaultedFields {ty : TypeRef} {object : InputObjectType} {field : InputValueDefinition}
    {fallback : Value} (htype : types.namedType? ty = some (.inputObject object))
    (hmem : field ∈ Entries.values object.fields.entries) (hfallback : field.fallback = some fallback) :
    field ∈ defaultedFields types := by
  refine List.mem_flatMap.mpr ⟨_, Entries.get?_mem htype, ?_⟩
  exact List.mem_filter.mpr ⟨hmem, by rw [hfallback]; rfl⟩

/-- The values of an object, each under its key. -/
theorem deferEntries_eq_map (entries : List (String × Value)) :
    deferEntries types expand entries =
      entries.map fun entry => (entry.1, coerceValue types expand true entry.2) := by
  induction entries with
  | nil => rw [deferEntries]; rfl
  | cons entry rest ih => rw [deferEntries, ih]; rfl

/-- Fields whose given values and whose defaults are followed are coerced to the same entries. The
induction is on the declared fields; those that are given become fewer on both sides alike. -/
theorem coerceFields_follows {coerce coerce' : Value → Deferred} {object : InputObjectType}
    {fields : List InputValueDefinition} {source : Entries Value} {path : ValuePath}
    {entries : List (String × Value)}
    (hdefaults : ∀ field ∈ fields, DefaultFollows expand expand' field)
    (hsource : ∀ entry ∈ source, (coerce entry.2).Follows (coerce' entry.2))
    (h : coerceFields expand object path fields
      (source.map fun entry => (entry.1, coerce entry.2)) = .ok entries) (path' : ValuePath) :
    coerceFields expand' object path' fields
      (source.map fun entry => (entry.1, coerce' entry.2)) = .ok entries := by
  induction fields generalizing source entries with
  | nil =>
    cases source with
    | nil => exact h
    | cons entry rest => exact absurd h fault_ne_ok
  | cons field fields ih =>
    have hfields := fun field hmem => hdefaults field (List.mem_cons_of_mem _ hmem)
    rw [coerceFields, Entries.get?_map] at h ⊢
    cases hgiven : Entries.get? source field.name with
    | some raw =>
      -- The field is given: its value is followed, and it leaves both sides.
      rw [hgiven] at h
      obtain ⟨value, hvalue, h⟩ := coerced_bind_eq_ok.mp h
      obtain ⟨rest, hrest, h⟩ := coerced_bind_eq_ok.mp h
      have hfollowed := hsource _ (Entries.get?_mem hgiven) _ _ _ hvalue (.field field.name :: path')
      refine coerced_bind_eq_ok.mpr ⟨value, hfollowed, coerced_bind_eq_ok.mpr ⟨rest, ?_, h⟩⟩
      simp only [Option.map_some, Option.isSome_some, if_true, Entries.swapErase_map] at hrest ⊢
      exact ih hfields (fun entry hmem => hsource entry (Entries.mem_of_mem_swapErase hmem)) hrest
    | none =>
      rw [hgiven] at h
      cases hfallback : field.fallback with
      -- It has a default, which is followed as well.
      | some fallback =>
        rw [hfallback] at h
        obtain ⟨value, hvalue, h⟩ := coerced_bind_eq_ok.mp h
        obtain ⟨rest, hrest, h⟩ := coerced_bind_eq_ok.mp h
        have hfollowed := hdefaults field List.mem_cons_self fallback hfallback _ _ hvalue
          (.field field.name :: path')
        exact coerced_bind_eq_ok.mpr ⟨value, hfollowed,
          coerced_bind_eq_ok.mpr ⟨rest, ih hfields hsource hrest, h⟩⟩
      | none =>
        rw [hfallback] at h
        simp only [Option.map_none, Option.none_or] at h ⊢
        split at h
        -- It is absent from both sides, and may be.
        next => exact absurd h fault_ne_ok
        next hnullable =>
          rw [if_neg hnullable]
          exact ih hfields hsource h

/-- Values of a named type: only the fields of an input object have defaults. Scalars and enum names
are read without them, and at no particular place, so there the two sides are the same coercion. -/
theorem coerceNamed_follows (value : Value) (source : Option (Entries Value))
    (hdefaults : ∀ field ∈ defaultedFields types, DefaultFollows expand expand' field)
    (hsource : ∀ entries, source = some entries → ∀ entry ∈ entries,
      (coerceValue types expand true entry.2).Follows (coerceValue types expand' true entry.2)) :
    (coerceNamed types expand value (source.map (deferEntries types expand))).Follows
      (coerceNamed types expand' value (source.map (deferEntries types expand'))) := by
  intro ty path result h path'
  -- Neither side looks at the place, and both look at the same type.
  rw [coerceNamed] at h ⊢
  split at h
  next scalar htype =>
    exact coerceScalar_eq_ok.mpr (coerceScalar_eq_ok.mp h)
  next type htype =>
    split at h
    next name => exact coerceEnumName_eq_ok.mpr (coerceEnumName_eq_ok.mp h)
    next name => exact coerceEnumName_eq_ok.mpr (coerceEnumName_eq_ok.mp h)
    next => exact absurd h fault_ne_ok
  next object htype =>
    cases source with
    | none => exact absurd h fault_ne_ok
    | some entries =>
      simp only [Option.map_some, deferEntries_eq_map] at h ⊢
      -- Only an input object has defaults in it.
      obtain ⟨fields, hfields, rfl⟩ := coerced_map_eq_ok.mp h
      refine coerced_map_eq_ok.mpr ⟨fields, ?_, rfl⟩
      refine coerceFields_follows (fun field hmem fallback hfallback => ?_) (hsource entries rfl)
        hfields path'
      exact hdefaults field (mem_defaultedFields htype hmem hfallback) fallback hfallback
  next => exact absurd h fault_ne_ok

theorem coerceSingle_follows {named named' : Deferred} (h : named.Follows named') (lenient : Bool)
    (kind : ValueKind) :
    (coerceSingle lenient kind named).Follows (coerceSingle lenient kind named') := by
  intro ty path value hvalue path'
  rw [coerceSingle] at hvalue ⊢
  -- The item of a list of one is followed, and wrapped in as many lists.
  split at hvalue
  next hlist =>
    rw [if_pos hlist]
    split at hvalue
    next hlenient =>
      rw [if_pos hlenient]
      obtain ⟨item, hitem, hwrapped⟩ := coerced_map_eq_ok.mp hvalue
      exact coerced_map_eq_ok.mpr ⟨item, h _ _ _ hitem path', hwrapped⟩
    next => exact absurd hvalue fault_ne_ok
  next hlist =>
    rw [if_neg hlist]
    exact h _ _ _ hvalue path'

/-- Values that are neither null nor composite. -/
theorem coerceLeaf_follows
    (hdefaults : ∀ field ∈ defaultedFields types, DefaultFollows expand expand' field)
    (value : Value) (lenient : Bool) :
    (coerceSingle lenient value.kind (coerceNamed types expand value none)).Follows
      (coerceSingle lenient value.kind (coerceNamed types expand' value none)) :=
  coerceSingle_follows (coerceNamed_follows value none hdefaults nofun) lenient value.kind

mutual

/-- **A coercion depends on the expansion of defaults only through the fields that have one.** The
recursion is that of the value. If the second expansion gives every value that the first one gives
for a declared default, then the coercion does so for every value. -/
theorem coerceValue_follows
    (hdefaults : ∀ field ∈ defaultedFields types, DefaultFollows expand expand' field) :
    ∀ (value : Value) (lenient : Bool),
      (coerceValue types expand lenient value).Follows (coerceValue types expand' lenient value)
  | .null, lenient => by
    intro ty path value h path'
    rw [coerceValue] at h ⊢
    split at h
    next => exact absurd h fault_ne_ok
    next hnullable => rw [if_neg hnullable]; exact h
  | .list items, lenient => by
    intro ty path value h path'
    rw [coerceValue] at h ⊢
    split at h
    next item htype =>
      obtain ⟨values, hvalues, rfl⟩ := coerced_map_eq_ok.mp h
      exact coerced_map_eq_ok.mpr
        ⟨values, coerceItems_follows hdefaults items hvalues path', rfl⟩
    next htype =>
      have hnamed := coerceNamed_follows (.list items) none hdefaults nofun
      exact hnamed ty path value h path'
  | .object entries, lenient => by
    intro ty path value h
    rw [coerceValue] at h
    have hnamed := coerceNamed_follows (.object entries) (some entries) hdefaults
      fun _ hsource => Option.some.inj hsource ▸ entries_follow hdefaults entries
    intro path'
    rw [coerceValue]
    exact coerceSingle_follows hnamed lenient .object ty path value h path'
  | .bool b, lenient => coerceLeaf_follows hdefaults (.bool b) lenient
  | .number n, lenient => coerceLeaf_follows hdefaults (.number n) lenient
  | .string s, lenient => coerceLeaf_follows hdefaults (.string s) lenient
  | .enum name, lenient => coerceLeaf_follows hdefaults (.enum name) lenient
  | .binary bytes, lenient => coerceLeaf_follows hdefaults (.binary bytes) lenient

theorem coerceItems_follows
    (hdefaults : ∀ field ∈ defaultedFields types, DefaultFollows expand expand' field) :
    ∀ (items : List Value) {ty : TypeRef} {path : ValuePath} {index : Nat} {values : List Value},
      coerceItems types expand items ty path index = .ok values →
        ∀ path', coerceItems types expand' items ty path' index = .ok values
  | [], _, _, _, _ => fun h _ => h
  | item :: rest, ty, path, index, values => by
    intro h path'
    rw [coerceItems] at h ⊢
    obtain ⟨value, hvalue, h⟩ := coerced_bind_eq_ok.mp h
    obtain ⟨others, hothers, h⟩ := coerced_bind_eq_ok.mp h
    exact coerced_bind_eq_ok.mpr ⟨value, coerceValue_follows hdefaults item false _ _ _ hvalue _,
      coerced_bind_eq_ok.mpr ⟨others, coerceItems_follows hdefaults rest hothers path', h⟩⟩

theorem entries_follow
    (hdefaults : ∀ field ∈ defaultedFields types, DefaultFollows expand expand' field) :
    ∀ (entries : List (String × Value)), ∀ entry ∈ entries,
      (coerceValue types expand true entry.2).Follows (coerceValue types expand' true entry.2)
  | [], _, hmem => absurd hmem List.not_mem_nil
  | (key, value) :: rest, entry, hmem => by
    rcases List.mem_cons.mp hmem with rfl | hmem
    · exact coerceValue_follows hdefaults value true
    · exact entries_follow hdefaults rest entry hmem

end

/-! ### Enough levels of defaults -/

/-- More levels keep every value, and no value depends on its place. -/
theorem expandDefault_follows (types : TypeSystem) {few many : Nat} (h : few ≤ many)
    (value : Value) : (expandDefault types few value).Follows (expandDefault types many value) := by
  induction few generalizing many value with
  | zero => exact fun ty path result h => nomatch h
  | succ few ih =>
    obtain ⟨many, rfl⟩ : ∃ less, many = less + 1 := ⟨many - 1, by omega⟩
    refine coerceValue_follows (fun field _ fallback _ path result hvalue path' => ?_) value true
    exact ih (Nat.le_of_succ_le_succ h) fallback _ _ _ hvalue path'

/-- Whether the default of a field has a value within some levels. -/
def isSettled (types : TypeSystem) (levels : Nat) (field : InputValueDefinition) : Bool :=
  match field.fallback with
  | some fallback => (expandDefault types levels fallback field.type []).isOk
  | none => false

/-- How many defaults have a value within some levels. -/
def settledCount (types : TypeSystem) (levels : Nat) : Nat :=
  (defaultedFields types).countP (isSettled types levels)

theorem isSettled_iff {levels : Nat} {field : InputValueDefinition} :
    isSettled types levels field ↔ ∃ fallback value, field.fallback = some fallback ∧
      expandDefault types levels fallback field.type [] = .ok value := by
  rw [isSettled]
  cases field.fallback with
  | none => simp
  | some fallback =>
    simp only [Option.some.injEq, ↓existsAndEq, true_and]
    cases expandDefault types levels fallback field.type [] with
    | ok value => simp [Except.isOk, Except.toBool]
    | error failure => simp [Except.isOk, Except.toBool]

/-- More levels let no fewer defaults have a value. -/
theorem isSettled_mono {few many : Nat} (h : few ≤ many) {field : InputValueDefinition}
    (hsettled : isSettled types few field) : isSettled types many field := by
  obtain ⟨fallback, value, hfallback, hvalue⟩ := isSettled_iff.mp hsettled
  exact isSettled_iff.mpr
    ⟨fallback, value, hfallback, expandDefault_follows types h fallback _ _ _ hvalue []⟩

/-- A level is final if the next one lets no further default have a value. -/
def IsFinal (types : TypeSystem) (levels : Nat) : Prop :=
  ∀ field ∈ defaultedFields types, isSettled types (levels + 1) field → isSettled types levels field

/-- At a final level, the defaults have the values that they have one level later. -/
theorem IsFinal.defaultFollows {levels : Nat} (h : IsFinal types levels)
    {field : InputValueDefinition} (hmem : field ∈ defaultedFields types) :
    DefaultFollows (expandDefault types (levels + 1)) (expandDefault types levels) field := by
  intro fallback hfallback path value hvalue path'
  have hlater := expandDefault_follows types (Nat.le_refl (levels + 1)) fallback _ _ _ hvalue []
  obtain ⟨_, value', hfallback', hvalue'⟩ :=
    isSettled_iff.mp (h field hmem (isSettled_iff.mpr ⟨fallback, value, hfallback, hlater⟩))
  obtain rfl := Option.some.inj (hfallback.symm.trans hfallback')
  -- The value at this level is kept by the next one, where it is the given one.
  have hkept := expandDefault_follows types (Nat.le_succ levels) fallback _ _ _ hvalue' []
  obtain rfl : value' = value := Except.ok.inj (hkept.symm.trans hlater)
  exact expandDefault_follows types (Nat.le_refl levels) fallback _ _ _ hvalue' path'

/-- The level after a final one is final. -/
theorem IsFinal.succ {levels : Nat} (h : IsFinal types levels) : IsFinal types (levels + 1) := by
  intro field hmem hsettled
  obtain ⟨fallback, value, hfallback, hvalue⟩ := isSettled_iff.mp hsettled
  refine isSettled_iff.mpr ⟨fallback, value, hfallback, ?_⟩
  exact coerceValue_follows (fun field hmem => h.defaultFollows hmem) fallback true _ _ _ hvalue []

/-- A level that is not final is followed by one with more settled defaults. -/
theorem settledCount_lt {levels : Nat} (h : ¬ IsFinal types levels) :
    settledCount types levels < settledCount types (levels + 1) := by
  rw [IsFinal] at h
  push Not at h
  -- Some default is settled on the next level and not on this one.
  obtain ⟨field, hmem, hlater, hnow⟩ := h
  obtain ⟨before, after, hfields⟩ := List.append_of_mem hmem
  rw [settledCount, settledCount, hfields, List.countP_append, List.countP_append,
    List.countP_cons_of_neg hnow, List.countP_cons_of_pos hlater]
  -- The defaults before and behind it can only become settled, so its own settling counts.
  have hmono : ∀ fields : List InputValueDefinition, fields.countP (isSettled types levels) ≤
      fields.countP (isSettled types (levels + 1)) := fun fields =>
    List.countP_mono_left fun field _ => isSettled_mono (Nat.le_succ levels)
  have hbefore := hmono before
  have hafter := hmono after
  omega

/-- Up to the first final level, each level settles one more default. -/
theorem isFinal_or_lt (types : TypeSystem) (levels : Nat) :
    IsFinal types levels ∨ levels < settledCount types (levels + 1) := by
  -- The induction is on the levels: either one of them was final, or each has settled another
  -- default.
  induction levels with
  | zero =>
    by_cases h : IsFinal types 0
    · exact .inl h
    · exact .inr (Nat.lt_of_le_of_lt (Nat.zero_le _) (settledCount_lt h))
  | succ levels ih =>
    by_cases h : IsFinal types (levels + 1)
    · exact .inl h
    · have hcount := ih.resolve_left fun hfinal => h hfinal.succ
      exact .inr (Nat.lt_of_le_of_lt hcount (settledCount_lt h))

/-- **As many levels as there are defaults settle all that can be settled.** -/
theorem isFinal_length (types : TypeSystem) : IsFinal types (defaultedFields types).length :=
  (isFinal_or_lt types _).resolve_right (Nat.not_lt.mpr List.countP_le_length)

/-- **A level less than `coerceConstant` has gives the same values.** -/
theorem defaults_settle {field : InputValueDefinition} (hmem : field ∈ defaultedFields types) :
    DefaultFollows (coerceConstant types)
      (expandDefault types (defaultedFields types).length) field :=
  (isFinal_length types).defaultFollows hmem

end Coercion

end GraphQL
