import GraphQL.Proofs.Coercion.Defaults
import GraphQL.Proofs.Coercion.InputTypes
import GraphQL.Proofs.Coercion.Variables

/-!
# Coerced values conform to their types

Every value that a constant is coerced to is one of the type, with all defaults that were expanded
on the way. The same holds of the variables of a request, each for its declared type.

A coercion and the expansion of defaults call each other. The circle is broken by the number of
levels: a coercion conforms if the expansion that it is given does, and the expansion with one more
level is a coercion with the one before.

* `Deferred.Conforms` — a coercion gives values of the type that it is asked for, and no others;
* `Coercion.coerceFields_filledBy` — input objects, field by field;
* `Coercion.coerceValue_conforms` — a coercion conforms if the expansion of defaults does;
* `Coercion.expandDefault_conforms`, `Coercion.coerceConstant_conforms` — hence the expansion does,
  at every depth, and so do constants;
* `Coercion.conforms_of_coerceVariables` — the variables of a request.
-/

namespace GraphQL

/-- The coercion gives only values of the type that it is asked for. -/
def Deferred.Conforms (types : TypeSystem) (deferred : Deferred) : Prop :=
  ∀ ty path value, deferred ty path = .ok value → ConformsToInput types ty value

namespace Coercion

variable {types : TypeSystem} {expand : Value → Deferred}

/-! ### Constants -/

/-- The declared fields of an input object. The induction is on them: each has the value that is
given for it, or its default, or is left out. -/
theorem coerceFields_filledBy (hexpand : ∀ fallback, (expand fallback).Conforms types)
    {object : InputObjectType} {path : ValuePath} {fields : List InputValueDefinition}
    {given : Entries Deferred} {entries : Entries Value}
    (hgiven : ∀ entry ∈ given, entry.2.Conforms types)
    (h : coerceFields expand object path fields given = .ok entries) :
    FilledBy (ConformsToField types) fields entries := by
  induction fields generalizing given entries with
  | nil =>
    cases given with
    -- Nothing is declared any more, so nothing may be given any more.
    | nil =>
      obtain rfl := Except.ok.inj h
      exact .nil
    | cons entry rest => exact absurd h fault_ne_ok
  | cons field fields ih =>
    rw [coerceFields] at h
    cases hfound : Entries.get? given field.name with
    | some deferred =>
      -- A value is given for the field. It conforms by assumption, and leaves what is given for the
      -- others.
      rw [hfound] at h
      obtain ⟨value, hvalue, h⟩ := coerced_bind_eq_ok.mp h
      obtain ⟨rest, hrest, h⟩ := coerced_bind_eq_ok.mp h
      obtain rfl := Except.ok.inj h
      have hconforms := hgiven _ (Entries.get?_mem hfound) _ _ _ hvalue
      have hleft : FilledBy (ConformsToField types) fields rest :=
        ih (fun entry hmem => hgiven entry (Entries.mem_of_mem_swapErase hmem)) hrest
      exact .present (.value hconforms) hleft
    | none =>
      rw [hfound] at h
      -- Nothing is given for the field: it has its default, or may be absent if it may be null.
      cases hfallback : field.fallback with
      | some fallback =>
        rw [hfallback] at h
        obtain ⟨value, hvalue, h⟩ := coerced_bind_eq_ok.mp h
        obtain ⟨rest, hrest, h⟩ := coerced_bind_eq_ok.mp h
        obtain rfl := Except.ok.inj h
        exact .present (.value (hexpand fallback _ _ _ hvalue)) (ih hgiven hrest)
      | none =>
        rw [hfallback] at h
        simp only [Option.map_none, Option.none_or] at h
        split at h
        next => exact absurd h fault_ne_ok
        next hnullable =>
          exact .absent (.absent (Bool.eq_false_iff.mpr hnullable) hfallback) (ih hgiven h)

/-- Values of a named type. -/
theorem coerceNamed_conforms (hexpand : ∀ fallback, (expand fallback).Conforms types) {value : Value}
    (hvalue : value ≠ .null) {given : Option (Entries Deferred)}
    (hgiven : ∀ entries, given = some entries → ∀ entry ∈ entries, entry.2.Conforms types)
    {ty : TypeRef} {path : ValuePath} {result : Value}
    (h : coerceNamed types expand value given ty path = .ok result) :
    ConformsToNamed types ty.name result := by
  rw [coerceNamed] at h
  split at h
  next scalar htype => exact .scalar htype hvalue (.inl (coerceScalar_eq_ok.mp h))
  next type htype =>
    split at h
    next name => exact .enum htype (coerceEnumName_eq_ok.mp h)
    next name => exact .enum htype (coerceEnumName_eq_ok.mp h)
    next => exact absurd h fault_ne_ok
  next object htype =>
    cases given with
    -- Only an object is coerced to an input object; its entries are inserted under the names of
    -- their fields, which are distinct.
    | none => exact absurd h fault_ne_ok
    | some entries =>
      obtain ⟨fields, hfields, rfl⟩ := coerced_map_eq_ok.mp h
      have hfilled := coerceFields_filledBy hexpand (hgiven entries rfl) hfields
      rw [Entries.ofPairs_eq_of_sublist object.fields hfilled.keys_sublist]
      exact .object htype hfilled
  next => exact absurd h fault_ne_ok

/-- A value that stands for itself or for a list of one. -/
theorem coerceSingle_conforms {lenient : Bool} {kind : ValueKind} {named : Deferred}
    (hnamed : ∀ ty path value, named ty path = .ok value → ConformsToNamed types ty.name value) :
    (coerceSingle lenient kind named).Conforms types := by
  intro ty path value h
  rw [coerceSingle] at h
  split at h
  -- A type of lists accepts a single value in place of a list of one, if that is allowed.
  next hlist =>
    split at h
    next hlenient =>
      obtain ⟨only, honly, rfl⟩ := coerced_map_eq_ok.mp h
      exact .wrapInLists (hnamed _ _ _ honly)
    next => exact absurd h fault_ne_ok
  next hlist => exact .named (Bool.eq_false_iff.mpr hlist) (hnamed _ _ _ h)

/-- Values that are neither null nor composite. -/
theorem coerceLeaf_conforms (hexpand : ∀ fallback, (expand fallback).Conforms types) {value : Value}
    (hvalue : value ≠ .null) (lenient : Bool) :
    (coerceSingle lenient value.kind (coerceNamed types expand value none)).Conforms types :=
  coerceSingle_conforms fun _ _ _ h =>
    coerceNamed_conforms hexpand hvalue (fun _ hsource => absurd hsource (by simp)) h

mutual

/-- **A coercion conforms if the expansion of defaults does.** The recursion is that of the value.
Defaults are no parts of the value, so what is asked of them is a hypothesis, which is discharged by
the induction on the number of levels of defaults afterwards. -/
theorem coerceValue_conforms (hexpand : ∀ fallback, (expand fallback).Conforms types) :
    ∀ (value : Value) (lenient : Bool), (coerceValue types expand lenient value).Conforms types
  | .null, lenient => by
    intro ty path value h
    rw [coerceValue] at h
    split at h
    next => exact absurd h fault_ne_ok
    next hnullable =>
      obtain rfl := Except.ok.inj h
      exact .null (Bool.eq_false_iff.mpr hnullable)
  | .list items, lenient => by
    intro ty path value h
    rw [coerceValue] at h
    split at h
    next item hitem =>
      obtain ⟨values, hvalues, rfl⟩ := coerced_map_eq_ok.mp h
      exact .list hitem (coerceItems_conforms hexpand items hvalues)
    next hitem =>
      -- Only a type without lists has no items.
      have hlist : ty.isList = false := by
        rw [TypeRef.isList, Bool.eq_false_iff, Ne, ← Wrapping.withoutList?_isSome_iff]
        rw [TypeRef.itemType?, Option.map_eq_none_iff] at hitem
        rw [hitem]
        exact Bool.false_ne_true
      -- A list is no object, so nothing is given for fields.
      have hnone : ∀ entries, (none : Option (Entries Deferred)) = some entries →
          ∀ entry ∈ entries, entry.2.Conforms types := fun _ hsource => absurd hsource (by simp)
      exact .named hlist (coerceNamed_conforms hexpand Value.noConfusion hnone h)
  | .object entries, lenient => by
    intro ty path value h
    rw [coerceValue] at h
    -- Each entry is coerced only when the type of its field is known, and then it conforms by the
    -- recursion.
    have hentries : ∀ given, some (deferEntries types expand entries) = some given →
        ∀ entry ∈ given, entry.2.Conforms types := by
      intro given hgiven entry hmem
      rw [← Option.some.inj hgiven, deferEntries_eq_map] at hmem
      obtain ⟨source, hsource, rfl⟩ := List.mem_map.mp hmem
      exact entries_conform hexpand entries source hsource
    have hnamed := fun ty path value => @coerceNamed_conforms types expand hexpand (.object entries)
      Value.noConfusion _ hentries ty path value
    exact coerceSingle_conforms hnamed ty path value h
  | .bool b, lenient => coerceLeaf_conforms hexpand Value.noConfusion lenient
  | .number n, lenient => coerceLeaf_conforms hexpand Value.noConfusion lenient
  | .string s, lenient => coerceLeaf_conforms hexpand Value.noConfusion lenient
  | .enum name, lenient => coerceLeaf_conforms hexpand Value.noConfusion lenient
  | .binary bytes, lenient => coerceLeaf_conforms hexpand Value.noConfusion lenient

theorem coerceItems_conforms (hexpand : ∀ fallback, (expand fallback).Conforms types) :
    ∀ (items : List Value) {ty : TypeRef} {path : ValuePath} {index : Nat} {values : List Value},
      coerceItems types expand items ty path index = .ok values →
        ∀ value ∈ values, ConformsToInput types ty value
  | [], _, _, _, values => by
    intro h value hmem
    obtain rfl := Except.ok.inj h
    exact absurd hmem List.not_mem_nil
  | item :: rest, ty, path, index, values => by
    intro h value hmem
    rw [coerceItems] at h
    obtain ⟨first, hfirst, h⟩ := coerced_bind_eq_ok.mp h
    obtain ⟨others, hothers, h⟩ := coerced_bind_eq_ok.mp h
    obtain rfl := Except.ok.inj h
    rcases List.mem_cons.mp hmem with rfl | hmem
    · exact coerceValue_conforms hexpand item false _ _ _ hfirst
    · exact coerceItems_conforms hexpand rest hothers value hmem

theorem entries_conform (hexpand : ∀ fallback, (expand fallback).Conforms types) :
    ∀ (entries : List (String × Value)), ∀ entry ∈ entries,
      (coerceValue types expand true entry.2).Conforms types
  | [], _, hmem => absurd hmem List.not_mem_nil
  | (key, value) :: rest, entry, hmem => by
    rcases List.mem_cons.mp hmem with rfl | hmem
    · exact coerceValue_conforms hexpand value true
    · exact entries_conform hexpand rest entry hmem

end

/-- The expansion of defaults conforms at every depth, by induction on it. -/
theorem expandDefault_conforms (depth : Nat) (fallback : Value) :
    (expandDefault types depth fallback).Conforms types := by
  induction depth generalizing fallback with
  | zero =>
    intro ty path value h
    exact absurd h (by simp [expandDefault])
  | succ depth ih => exact coerceValue_conforms ih fallback true

/-- **Coerced constants conform to their type.** -/
theorem coerceConstant_conforms (value : Value) : (coerceConstant types value).Conforms types :=
  expandDefault_conforms _ value

/-! ### Variables -/

section Variables

variable {limit : Nat} {definition : VariableDefinition} {definitions : List VariableDefinition}
  {raw coerced coerced' : Variables} {errors : List GraphQLError}

/-- The variable has been declared with a type that its value is of. -/
def IsValueOf (types : TypeSystem) (definitions : List VariableDefinition) (name : String)
    (value : Value) : Prop :=
  ∃ definition ∈ definitions, definition.name = name ∧
    ∃ ty, TypeRef.ofSyntax? definition.type = some ty ∧ ConformsToInput types ty value

/-- A declaration gives its variable a value of its type. -/
theorem conforms_of_coerceDeclaredVariable {given : Option Value} {value : Value}
    (h : coerceDeclaredVariable types definition given = .ok (.value value)) :
    ∃ ty, TypeRef.ofSyntax? definition.type = some ty ∧ ConformsToInput types ty value := by
  rw [coerceDeclaredVariable] at h
  cases htype : TypeRef.ofSyntax? definition.type with
  | none => rw [htype] at h; exact absurd h (by simp)
  | some ty =>
    rw [htype] at h
    refine ⟨ty, rfl, ?_⟩
    -- The declared type is one of input: nothing else gives the variable a value.
    dsimp only at h
    split at h
    · exact absurd (Except.ok.inj h) (by simp)
    · split at h
      next =>
        split at h
        next result hresult =>
          obtain rfl := VariableOutcome.value.inj (Except.ok.inj h)
          exact coerceConstant_conforms _ _ _ _ hresult
        next => exact absurd (Except.ok.inj h) (by simp)
        next => exact absurd h (by simp)
      next => split at h <;> exact absurd (Except.ok.inj h) (by simp)

/-- What the loop adds to the variables are values of declared types. The induction is on the
declarations that are left, with what has been coerced so far: a declaration stores at most one
value, under its own name. -/
theorem conforms_of_coerceEachVariable {all : List VariableDefinition} {errors' : List GraphQLError}
    (hdefinitions : ∀ definition ∈ definitions, definition ∈ all)
    (hcoerced : ∀ name value, coerced.get? name = some value → IsValueOf types all name value)
    (h : coerceEachVariable types limit definitions raw coerced errors = .ok (coerced', errors'))
    {name : String} {value : Value} (hvalue : coerced'.get? name = some value) :
    IsValueOf types all name value := by
  induction definitions generalizing raw coerced errors with
  | nil =>
    obtain ⟨rfl, -⟩ := Prod.mk.inj (Except.ok.inj h)
    exact hcoerced name value hvalue
  | cons definition rest ih =>
    have hmem : definition ∈ all := hdefinitions definition List.mem_cons_self
    have hrest := fun other hother => hdefinitions other (List.mem_cons_of_mem definition hother)
    rw [coerceEachVariable_cons] at h
    split at h
    · obtain ⟨rfl, -⟩ := Prod.mk.inj (Except.ok.inj h)
      exact hcoerced name value hvalue
    · cases houtcome : coerceDeclaredVariable types definition (raw.get? definition.name) with
      | error why => rw [houtcome] at h; exact absurd h (by simp [bind, Except.bind])
      | ok outcome =>
        rw [houtcome] at h
        refine ih hrest (fun other found hfound => ?_) h
        cases outcome with
        | value result =>
          by_cases hname : other = definition.name
          · -- The variable that has just been stored.
            have hstored : (coerced.insert definition.name result).get? definition.name =
                some result := coerced.get?_insert_self definition.name result
            rw [hname] at hfound
            obtain rfl : result = found := Option.some.inj (hstored.symm.trans hfound)
            exact ⟨definition, hmem, hname.symm, conforms_of_coerceDeclaredVariable houtcome⟩
          · exact hcoerced other found
              ((coerced.get?_insert_of_ne result hname).symm.trans hfound)
        | absent => exact hcoerced other found hfound
        | failed error => exact hcoerced other found hfound

/-- **The variables of a request have values of their declared types.** -/
theorem conforms_of_coerceVariables
    (h : coerceVariables types limit definitions raw = .ok (.ok coerced)) {name : String}
    {value : Value} (hvalue : coerced.get? name = some value) :
    IsValueOf types definitions name value := by
  refine conforms_of_coerceEachVariable (fun _ hmem => hmem) (fun other found hfound => ?_)
    (coerceVariables_eq_ok_iff.mp h) hvalue
  -- There are no variables before the first declaration.
  exact absurd hfound (by simp [Variables.get?, Variables.empty])

end Variables

end Coercion

end GraphQL
