import GraphQL.Coercion.Literal
import GraphQL.Proofs.Coercion.Defaults
import GraphQL.Proofs.Coercion.Faithful

/-!
# The coercion of literals and that of values

Two separate coercions read the values of a request: one the literals of the document, the other the
values of variables. The second one follows the first: every value that a constant literal is coerced
to is also what the value of that literal is coerced to.

* `Coercion.coerceLiteralFields_followed` — input objects, where the two differ most: literals stay in
  place while they are read and values are taken out, and unknown fields are looked for at opposite
  ends;
* `Coercion.coerceLiteral_followed` — literals of every form;
* `Coercion.coerceConstant_of_coerceLiteral` — the same of a literal as a whole;
* `Coercion.isNonNull_of_coerceLiteral` — only null is coerced to null;
* `Coercion.coerceLiteral_congr` — a constant literal is the same wherever it is written.
-/

namespace GraphQL

/-- A coercion of literals never leaves a place absent, and the second coercion gives every value that
it gives, whatever the place. -/
def DeferredLiteral.FollowedBy (literal : DeferredLiteral) (value : Deferred) : Prop :=
  ∀ ty path result, literal ty path = .ok result →
    ∃ coerced, result = some coerced ∧ ∀ path', value ty path' = .ok coerced

namespace Coercion

variable {types : TypeSystem} {vars : Variables}

/-! ### Input objects -/

theorem deferLiterals_eq_map (entries : List (String × Literal)) :
    deferLiterals types vars entries =
      entries.map fun entry => (entry.1, coerceLiteral types vars true entry.2) := by
  induction entries with
  | nil => rw [deferLiterals]; rfl
  | cons entry rest ih => rw [deferLiterals, ih]; rfl

/-- The defaults of the value of a variable are expanded one level less deep than those of a
literal. -/
abbrev expandInside (types : TypeSystem) : Value → Deferred :=
  expandDefault types (defaultedFields types).length

/-- The declared fields of an object. Literals stay in place while values are taken out, so what is
left of the values are those of the fields to come. -/
theorem coerceLiteralFields_followed {object : InputObjectType} {path : ValuePath}
    {given : Entries DeferredLiteral} {fields : List InputValueDefinition}
    {rest : Entries Deferred} {entries : List (String × Value)}
    (hfields : ∀ field ∈ fields, field.fallback.isSome → field ∈ defaultedFields types)
    (hnodup : (fields.map InputValueDefinition.name).Nodup)
    (hgiven : ∀ field ∈ fields, Option.Rel DeferredLiteral.FollowedBy
      (Entries.get? given field.name) (Entries.get? rest field.name))
    (hrest : (Entries.keys rest).Nodup)
    (hknown : ∀ name ∈ Entries.keys rest, name ∈ fields.map InputValueDefinition.name)
    (h : coerceLiteralFields types object path given fields = .ok entries) (path' : ValuePath) :
    coerceFields (expandInside types) object path' fields rest = .ok entries := by
  induction fields generalizing rest entries with
  | nil =>
    cases rest with
    | nil => exact h
    | cons entry rest => exact absurd (hknown entry.1 List.mem_cons_self) List.not_mem_nil
  | cons field fields ih =>
    obtain ⟨hname, hnodup⟩ := List.nodup_cons.mp hnodup
    have hlater := fun other hmem => hfields other (List.mem_cons_of_mem _ hmem)
    have hgivenLater := fun other hmem => hgiven other (List.mem_cons_of_mem _ hmem)
    have hne : ∀ other ∈ fields, other.name ≠ field.name := fun other hmem heq =>
      hname (heq ▸ List.mem_map_of_mem hmem)
    rw [coerceLiteralFields] at h
    rw [coerceFields]
    have hrel := hgiven field List.mem_cons_self
    cases hliteral : Entries.get? given field.name with
    | some literal =>
      -- The field is given: its value is the first to be taken out.
      rw [hliteral] at hrel h
      cases hvalue : Entries.get? rest field.name with
      | none => rw [hvalue] at hrel; cases hrel
      | some deferred =>
        rw [hvalue] at hrel
        obtain ⟨found, hfound, h⟩ := coerced_bind_eq_ok.mp h
        obtain ⟨hfollowed⟩ := hrel
        obtain ⟨coerced, rfl, hcoerced⟩ := hfollowed _ _ _ hfound
        obtain ⟨others, hothers, h⟩ := coerced_bind_eq_ok.mp h
        have hmem : field.name ∈ Entries.keys rest :=
          (Entries.get?_isSome_iff_mem_keys rest field.name).mp (by rw [hvalue]; rfl)
        refine coerced_bind_eq_ok.mpr ⟨coerced, hcoerced _,
          coerced_bind_eq_ok.mpr ⟨others, ?_, h⟩⟩
        refine ih hlater hnodup (fun other hother => ?_) (Entries.nodup_keys_swapErase hrest hmem)
          (fun name hleft => ?_) hothers
        · rw [Option.isSome_some, if_pos rfl,
            Entries.get?_swapErase_of_ne hrest hmem (hne other hother)]
          exact hgivenLater other hother
        · obtain ⟨hleft, hother⟩ := (Entries.mem_keys_swapErase hrest hmem).mp hleft
          exact (List.mem_cons.mp (hknown name hleft)).resolve_left hother
    | none =>
      -- The field is not given, so what is left are values of other fields.
      rw [hliteral] at hrel h
      cases hvalue : Entries.get? rest field.name with
      | some deferred => rw [hvalue] at hrel; cases hrel
      | none =>
        have hkept : ∀ name ∈ Entries.keys rest, name ∈ fields.map InputValueDefinition.name := by
          intro name hleft
          refine (List.mem_cons.mp (hknown name hleft)).resolve_left fun heq => ?_
          have hsome := (Entries.get?_isSome_iff_mem_keys rest field.name).mpr (heq ▸ hleft)
          exact absurd hsome (by rw [hvalue]; exact Bool.false_ne_true)
        obtain ⟨found, hfound, h⟩ := coerced_bind_eq_ok.mp h
        obtain rfl : none = found := Except.ok.inj hfound
        cases hfallback : field.fallback with
        | some fallback =>
          rw [hfallback] at h
          obtain ⟨coerced, hcoerced, h⟩ := coerced_bind_eq_ok.mp h
          obtain ⟨others, hothers, h⟩ := coerced_bind_eq_ok.mp h
          have hsettled := defaults_settle (hfields field List.mem_cons_self (by rw [hfallback]; rfl))
            fallback hfallback _ _ hcoerced
          exact coerced_bind_eq_ok.mpr ⟨coerced, hsettled _, coerced_bind_eq_ok.mpr
            ⟨others, ih hlater hnodup hgivenLater hrest hkept hothers, h⟩⟩
        | none =>
          rw [hfallback] at h
          dsimp only [Option.map_none, Option.none_or] at h ⊢
          split at h
          next => exact absurd h fault_ne_ok
          next hnullable =>
            rw [if_neg hnullable]
            exact ih hlater hnodup hgivenLater hrest hkept h

/-- Object literals. That no key is unknown is found out before the fields are coerced on one side,
and after that on the other. Both orders agree on what succeeds: a literal without unknown keys
leaves nothing over, as every key of the value is that of a field. -/
theorem coerceLiteralObject_followed {ty : TypeRef}
    {object : InputObjectType} (htype : types.namedType? ty = some (.inputObject object))
    {entries : List (String × Literal)} (hnodup : (Entries.keys entries).Nodup)
    (lookup : String → Value)
    (hentries : ∀ entry ∈ entries, (coerceLiteral types vars true entry.2).FollowedBy
      (coerceValue types (expandInside types) true (entry.2.toValue lookup)))
    {path : ValuePath} {value : Value}
    (h : coerceLiteralObject types object path (deferLiterals types vars entries) = .ok value)
    (path' : ValuePath) :
    (coerceFields (expandInside types) object path' (Entries.values object.fields.entries)
      (deferEntries types (expandInside types) (Literal.toValueEntries lookup entries))).map
        (fun pairs => .object (Entries.ofPairs pairs)) = .ok value := by
  -- On both sides the entries are mapped, so they have the same keys.
  have hvalues : deferEntries types (expandInside types) (Literal.toValueEntries lookup entries) =
      entries.map fun entry => (entry.1, coerceValue types (expandInside types) true
        (entry.2.toValue lookup)) := by
    rw [deferEntries_eq_map, Literal.toValueEntries_eq_map, List.map_map]
    rfl
  have hkeys : Entries.keys (entries.map fun entry =>
      (entry.1, coerceValue types (expandInside types) true (entry.2.toValue lookup))) =
        Entries.keys entries := by
    rw [Entries.keys, Entries.keys, List.map_map]
    rfl
  have hgivenKeys : Entries.keys (deferLiterals types vars entries) = Entries.keys entries := by
    rw [deferLiterals_eq_map, Entries.keys, Entries.keys, List.map_map]
    rfl
  rw [coerceLiteralObject, hgivenKeys] at h
  split at h
  next => exact absurd h fault_ne_ok
  -- No key is unknown on the side of the literal, so nothing is left over on the other side.
  next hunknown =>
    obtain ⟨fields, hfields, rfl⟩ := coerced_map_eq_ok.mp h
    rw [hvalues]
    refine coerced_map_eq_ok.mpr ⟨fields, ?_, rfl⟩
    refine coerceLiteralFields_followed
      (fun field hmem hsome => ?_) object.fields.nodup_names (fun field hmem => ?_) (hkeys ▸ hnodup)
      (fun name hmem => ?_) hfields path'
    -- A field with a default is among those that have one.
    · obtain ⟨fallback, hfallback⟩ := Option.isSome_iff_exists.mp hsome
      exact mem_defaultedFields htype hmem hfallback
    -- What is written for a field is followed by what is given for it.
    · rw [deferLiterals_eq_map, Entries.get?_map, Entries.get?_map fun literal : Literal =>
        coerceValue types (expandInside types) true (literal.toValue lookup)]
      cases hentry : Entries.get? entries field.name with
      | none => exact .none
      | some literal => exact .some (hentries _ (Entries.get?_mem hentry))
    -- Every key of the value is that of a field, since the literal has no unknown ones.
    · rw [hkeys] at hmem
      rw [object.fields.names_eq_keys]
      have hcontains := List.find?_eq_none.mp hunknown name hmem
      rw [Bool.not_eq_true', Bool.not_eq_false] at hcontains
      exact (Entries.get?_isSome_iff_mem_keys _ _).mp hcontains

/-! ### Literals of every form -/

/-- Literals of a named type. Here the assumptions on the schema are used: a faithful scalar reads
the constant as it reads the literal, and a name of an enum type is looked up on either side.
Objects are compared field by field. -/
theorem coerceLiteralNamed_followed (htypes : types.ReadsAlike) (vars : Variables)
    (literal : Literal) (source : Option (List (String × Literal)))
    (hne : literal.toValue (fun name => (vars.get? name).getD .null) ≠ .null)
    (hsource : ∀ entries, source = some entries → (Entries.keys entries).Nodup ∧
      ∀ entry ∈ entries, (coerceLiteral types vars true entry.2).FollowedBy
        (coerceValue types (expandInside types) true
          (entry.2.toValue fun name => (vars.get? name).getD .null))) :
    (coerceLiteralNamed types vars literal (source.map (deferLiterals types vars))).FollowedBy
      (coerceNamed types (expandInside types)
        (literal.toValue fun name => (vars.get? name).getD .null)
        (source.map fun entries => deferEntries types (expandInside types)
          (Literal.toValueEntries (fun name => (vars.get? name).getD .null) entries))) := by
  intro ty path result h
  rw [coerceLiteralNamed] at h
  split at h
  next scalar htype =>
    -- The scalar makes the same value of the constant, as it is faithful.
    obtain ⟨value, hvalue, rfl⟩ := coerced_map_eq_ok.mp h
    refine ⟨value, rfl, fun path' => ?_⟩
    rw [coerceNamed, htype]
    exact coerceScalar_eq_ok.mpr
      (htypes.faithful htype _ _ hne (coerceScalar_eq_ok.mp hvalue)).2
  next type htype =>
    split at h
    next name =>
      -- The name is looked up on both sides.
      obtain ⟨value, hvalue, rfl⟩ := coerced_map_eq_ok.mp h
      refine ⟨value, rfl, fun path' => ?_⟩
      rw [coerceNamed, htype]
      exact coerceEnumName_eq_ok.mpr (coerceEnumName_eq_ok.mp hvalue)
    next => exact absurd h fault_ne_ok
  next object htype =>
    cases source with
    | none => exact absurd h fault_ne_ok
    | some entries =>
      obtain ⟨value, hvalue, rfl⟩ := coerced_map_eq_ok.mp h
      refine ⟨value, rfl, fun path' => ?_⟩
      -- Objects are compared field by field.
      obtain ⟨hnodup, hentries⟩ := hsource entries rfl
      rw [coerceNamed, htype]
      exact coerceLiteralObject_followed htype hnodup _ hentries hvalue path'
  next => exact absurd h fault_ne_ok

theorem coerceLiteralSingle_followed {literal : DeferredLiteral} {value : Deferred}
    (h : literal.FollowedBy value) (lenient : Bool) (kind kind' : ValueKind) :
    (coerceLiteralSingle lenient kind literal).FollowedBy (coerceSingle lenient kind' value) := by
  intro ty path result hresult
  rw [coerceLiteralSingle] at hresult
  split at hresult
  next hlist =>
    split at hresult
    next hlenient =>
      -- The item of a list of one is followed, and wrapped in as many lists.
      obtain ⟨item, hitem, rfl⟩ := coerced_map_eq_ok.mp hresult
      obtain ⟨coerced, rfl, hcoerced⟩ := h _ _ _ hitem
      refine ⟨wrapInLists ty coerced, rfl, fun path' => ?_⟩
      rw [coerceSingle, if_pos hlist, if_pos hlenient]
      exact coerced_map_eq_ok.mpr ⟨coerced, hcoerced path', rfl⟩
    next => exact absurd hresult fault_ne_ok
  next hlist =>
    obtain ⟨coerced, rfl, hcoerced⟩ := h _ _ _ hresult
    refine ⟨coerced, rfl, fun path' => ?_⟩
    rw [coerceSingle, if_neg hlist]
    exact hcoerced path'

/-- Literals that are neither null nor composite. -/
theorem coerceLiteralLeaf_followed (htypes : types.ReadsAlike) (literal : Literal)
    (hne : literal.toValue (fun name => (vars.get? name).getD .null) ≠ .null) (lenient : Bool)
    (kind kind' : ValueKind) :
    (coerceLiteralSingle lenient kind (coerceLiteralNamed types vars literal none)).FollowedBy
      (coerceSingle lenient kind' (coerceNamed types (expandInside types)
        (literal.toValue fun name => (vars.get? name).getD .null) none)) :=
  coerceLiteralSingle_followed
    (coerceLiteralNamed_followed htypes vars literal none hne nofun) lenient kind kind'

mutual

/-- **The coercion of variables follows that of literals**: it gives every value that a constant
literal is coerced to. The recursion is that of the literal. It is a statement about successes only,
since the two sides look for faults in different orders. -/
theorem coerceLiteral_followed (htypes : types.ReadsAlike) :
    ∀ (literal : Literal) (lenient : Bool), literal.IsConstant →
      (coerceLiteral types vars lenient literal).FollowedBy
        (coerceValue types (expandInside types) lenient
          (literal.toValue fun name => (vars.get? name).getD .null))
  | .var _, _, hconst => hconst.elim
  | .null, lenient, _ => by
    intro ty path result h
    rw [coerceLiteral] at h
    split at h
    next => exact absurd h fault_ne_ok
    next hnullable =>
      obtain rfl := Except.ok.inj h
      refine ⟨.null, rfl, fun path' => ?_⟩
      rw [Literal.toValue, coerceValue, if_neg hnullable]
  | .list items, lenient, hconst => by
    intro ty path result h
    rw [coerceLiteral] at h
    split at h
    next item htype =>
      -- A list: item by item.
      obtain ⟨values, hvalues, rfl⟩ := coerced_map_eq_ok.mp h
      refine ⟨.list values, rfl, fun path' => ?_⟩
      rw [Literal.toValue, coerceValue, htype]
      exact coerced_map_eq_ok.mpr
        ⟨values, coerceLiteralItems_followed htypes items hconst hvalues path', rfl⟩
    next htype =>
      -- A type without lists: a list is at fault at any of them.
      obtain ⟨value, rfl, hvalue⟩ := coerceLiteralNamed_followed htypes vars (.list items) none
        nofun nofun _ _ _ h
      refine ⟨value, rfl, fun path' => ?_⟩
      have hnamed := hvalue path'
      rw [Literal.toValue] at hnamed ⊢
      rw [coerceValue, htype]
      exact hnamed
  | .object entries, lenient, hconst => by
    intro ty path result h
    rw [coerceLiteral] at h
    -- The entries are constant literals, so each of them is followed.
    have hnamed := coerceLiteralNamed_followed htypes vars (.object entries) (some entries) nofun
      fun _ hsource => Option.some.inj hsource ▸
        ⟨hconst.1, literals_followed htypes entries hconst.2⟩
    obtain ⟨value, rfl, hvalue⟩ :=
      coerceLiteralSingle_followed hnamed lenient .object .object _ _ _ h
    refine ⟨value, rfl, fun path' => ?_⟩
    have hsingle := hvalue path'
    rw [Literal.toValue] at hsingle ⊢
    rw [coerceValue]
    exact hsingle
  | .bool b, lenient, _ => coerceLiteralLeaf_followed htypes (.bool b) nofun lenient _ _
  | .number n, lenient, _ => coerceLiteralLeaf_followed htypes (.number n) nofun lenient _ _
  | .string s, lenient, _ => coerceLiteralLeaf_followed htypes (.string s) nofun lenient _ _
  | .enum name, lenient, _ => coerceLiteralLeaf_followed htypes (.enum name) nofun lenient _ _

theorem coerceLiteralItems_followed (htypes : types.ReadsAlike) :
    ∀ (items : List Literal), Literal.ItemsConstant items →
      ∀ {ty : TypeRef} {path : ValuePath} {index : Nat} {values : List Value},
        coerceLiteralItems types vars items ty path index = .ok values → ∀ path',
          coerceItems types (expandInside types)
            (Literal.toValueItems (fun name => (vars.get? name).getD .null) items) ty path' index =
              .ok values
  | [], _, _, _, _, _ => fun h _ => h
  | item :: rest, hconst, ty, path, index, values => by
    intro h path'
    rw [coerceLiteralItems] at h
    obtain ⟨found, hfound, h⟩ := coerced_bind_eq_ok.mp h
    obtain ⟨value, rfl, hvalue⟩ := coerceLiteral_followed htypes item false hconst.1 _ _ _ hfound
    -- The item is there, as it is not a variable; so nothing is made of its absence.
    obtain ⟨_, hsame, h⟩ := coerced_bind_eq_ok.mp h
    obtain rfl := Except.ok.inj hsame
    obtain ⟨others, hothers, h⟩ := coerced_bind_eq_ok.mp h
    rw [Literal.toValueItems, coerceItems]
    exact coerced_bind_eq_ok.mpr ⟨value, hvalue _, coerced_bind_eq_ok.mpr
      ⟨others, coerceLiteralItems_followed htypes rest hconst.2 hothers path', h⟩⟩

theorem literals_followed (htypes : types.ReadsAlike) :
    ∀ (entries : List (String × Literal)), Literal.EntriesConstant entries → ∀ entry ∈ entries,
      (coerceLiteral types vars true entry.2).FollowedBy
        (coerceValue types (expandInside types) true
          (entry.2.toValue fun name => (vars.get? name).getD .null))
  | [], _, _, hmem => absurd hmem List.not_mem_nil
  | (key, literal) :: rest, hconst, entry, hmem => by
    rcases List.mem_cons.mp hmem with rfl | hmem
    · exact coerceLiteral_followed htypes literal true hconst.1
    · exact literals_followed htypes rest hconst.2 entry hmem

end

/-- A variable of the value of a constant literal is coerced to what the literal is coerced to. -/
theorem coerceConstant_of_coerceLiteral (htypes : types.ReadsAlike) {literal : Literal}
    (hconst : literal.IsConstant) {ty : TypeRef} {path : ValuePath} {value : Value}
    (h : coerceLiteral types vars true literal ty path = .ok (some value)) :
    coerceConstant types literal.constant ty [] = .ok value := by
  obtain ⟨_, hsame, hvalue⟩ := coerceLiteral_followed htypes literal true hconst ty path _ h
  obtain rfl := Option.some.inj hsame
  have hconstant := hvalue []
  rw [Literal.toValue_eq_constant _ literal hconst] at hconstant
  exact hconstant

/-! ### Values that are not null -/

theorem wrapInLists_ne_null (ty : TypeRef) {value : Value} (h : value ≠ .null) :
    wrapInLists ty value ≠ .null := by
  rw [wrapInLists]
  induction ty.wrapping.listWrappings generalizing value with
  | nil => exact h
  | cons wrapper rest ih => exact ih nofun

/-- What is read for a named type is not null. For scalars and enum types this is what is assumed of
them, and an input object is an object whatever is in it. -/
theorem coerceLiteralNamed_ne_null (htypes : types.ReadsAlike) (literal : Literal)
    (hne : literal.toValue (fun name => (vars.get? name).getD .null) ≠ .null)
    {given : Option (Entries DeferredLiteral)} {ty : TypeRef} {path : ValuePath} {value : Value}
    (h : coerceLiteralNamed types vars literal given ty path = .ok (some value)) :
    value ≠ .null := by
  rw [coerceLiteralNamed] at h
  -- Whatever the named type is, its values are not null: for scalars and enums by assumption.
  split at h
  next scalar htype =>
    obtain ⟨_, hvalue, hsame⟩ := coerced_map_eq_ok.mp h
    obtain rfl := Option.some.inj hsame
    exact (htypes.faithful htype _ _ hne (coerceScalar_eq_ok.mp hvalue)).1
  next type htype =>
    split at h
    next name =>
      obtain ⟨_, hvalue, hsame⟩ := coerced_map_eq_ok.mp h
      obtain rfl := Option.some.inj hsame
      exact htypes.parse?_ne_null htype (coerceEnumName_eq_ok.mp hvalue)
    next => exact absurd h fault_ne_ok
  next object htype =>
    split at h
    next given =>
      obtain ⟨_, hvalue, hsame⟩ := coerced_map_eq_ok.mp h
      obtain rfl := Option.some.inj hsame
      rw [coerceLiteralObject] at hvalue
      split at hvalue
      next => exact absurd hvalue fault_ne_ok
      next =>
        obtain ⟨fields, _, rfl⟩ := coerced_map_eq_ok.mp hvalue
        exact nofun
    next => exact absurd h fault_ne_ok
  next => exact absurd h fault_ne_ok

theorem coerceLiteralSingle_ne_null {named : DeferredLiteral}
    (hnamed : ∀ ty path value, named ty path = .ok (some value) → value ≠ .null) {lenient : Bool}
    {kind : ValueKind} {ty : TypeRef} {path : ValuePath} {value : Value}
    (h : coerceLiteralSingle lenient kind named ty path = .ok (some value)) : value ≠ .null := by
  rw [coerceLiteralSingle] at h
  split at h
  · split at h
    · obtain ⟨found, hfound, hsame⟩ := coerced_map_eq_ok.mp h
      obtain ⟨item, rfl, rfl⟩ := Option.map_eq_some_iff.mp hsame
      exact wrapInLists_ne_null ty (hnamed _ _ _ hfound)
    · exact absurd h fault_ne_ok
  · exact hnamed _ _ _ h

/-- Literals that are neither null nor composite. -/
theorem coerceLiteralLeaf_ne_null (htypes : types.ReadsAlike) (literal : Literal)
    (hne : literal.toValue (fun name => (vars.get? name).getD .null) ≠ .null) {lenient : Bool}
    {kind : ValueKind} {given : Option (Entries DeferredLiteral)} {ty : TypeRef} {path : ValuePath}
    {value : Value} (h : coerceLiteralSingle lenient kind
      (coerceLiteralNamed types vars literal given) ty path = .ok (some value)) : value ≠ .null :=
  coerceLiteralSingle_ne_null (fun _ _ _ => coerceLiteralNamed_ne_null htypes literal hne) h

/-- Only null is coerced to null, and only at a type that allows it. -/
theorem isNonNull_of_coerceLiteral (htypes : types.ReadsAlike) {literal : Literal}
    (hconst : literal.IsConstant) {ty : TypeRef} {path : ValuePath}
    (h : coerceLiteral types vars true literal ty path = .ok (some .null)) :
    ty.isNonNull = false := by
  -- A literal that is null is allowed to be. Every other one has a value that is not null.
  cases literal with
  | var name => exact hconst.elim
  | null =>
    rw [coerceLiteral] at h
    split at h
    next => exact absurd h fault_ne_ok
    next hnullable => exact Bool.eq_false_iff.mpr hnullable
  | list items =>
    rw [coerceLiteral] at h
    split at h
    next =>
      obtain ⟨values, _, hsame⟩ := coerced_map_eq_ok.mp h
      exact nomatch hsame
    next => exact absurd rfl (coerceLiteralNamed_ne_null htypes (.list items) nofun h)
  | object entries =>
    rw [coerceLiteral] at h
    exact absurd rfl (coerceLiteralLeaf_ne_null htypes (.object entries) nofun h)
  | bool b => exact absurd rfl (coerceLiteralLeaf_ne_null htypes (.bool b) nofun h)
  | number n => exact absurd rfl (coerceLiteralLeaf_ne_null htypes (.number n) nofun h)
  | string s => exact absurd rfl (coerceLiteralLeaf_ne_null htypes (.string s) nofun h)
  | enum name => exact absurd rfl (coerceLiteralLeaf_ne_null htypes (.enum name) nofun h)

/-! ### Constant literals do not depend on variables -/

theorem coerceLiteralNamed_congr (literal : Literal) (hconst : literal.IsConstant)
    (vars vars' : Variables) (given : Option (Entries DeferredLiteral)) :
    coerceLiteralNamed types vars literal given = coerceLiteralNamed types vars' literal given := by
  funext ty path
  simp only [coerceLiteralNamed, Literal.toValue_eq_constant _ literal hconst]

mutual

/-- A constant literal is coerced to the same value whatever the variables are. -/
theorem coerceLiteral_congr (vars vars' : Variables) : ∀ (literal : Literal) (lenient : Bool),
    literal.IsConstant →
      coerceLiteral types vars lenient literal = coerceLiteral types vars' lenient literal
  | .var _, _, hconst => hconst.elim
  | .null, lenient, _ => by
    funext ty path
    rw [coerceLiteral, coerceLiteral]
  | .list items, lenient, hconst => by
    funext ty path
    -- Neither the items nor their type depend on variables.
    rw [coerceLiteral, coerceLiteral,
      coerceLiteralNamed_congr (.list items) hconst vars vars' none,
      coerceLiteralItems_congr vars vars' items hconst]
  | .object entries, lenient, hconst => by
    funext ty path
    rw [coerceLiteral, coerceLiteral, deferLiterals_congr vars vars' entries hconst.2,
      coerceLiteralNamed_congr (.object entries) hconst vars vars' _]
  | .bool b, lenient, hconst =>
    congrArg (coerceLiteralSingle lenient _) (coerceLiteralNamed_congr (.bool b) hconst vars vars' _)
  | .number n, lenient, hconst =>
    congrArg (coerceLiteralSingle lenient _) (coerceLiteralNamed_congr (.number n) hconst vars vars' _)
  | .string s, lenient, hconst =>
    congrArg (coerceLiteralSingle lenient _) (coerceLiteralNamed_congr (.string s) hconst vars vars' _)
  | .enum name, lenient, hconst =>
    congrArg (coerceLiteralSingle lenient _) (coerceLiteralNamed_congr (.enum name) hconst vars vars' _)

theorem coerceLiteralItems_congr (vars vars' : Variables) : ∀ (items : List Literal),
    Literal.ItemsConstant items →
      coerceLiteralItems types vars items = coerceLiteralItems types vars' items
  | [], _ => by
    funext ty path index
    rw [coerceLiteralItems, coerceLiteralItems]
  | item :: rest, hconst => by
    funext ty path index
    rw [coerceLiteralItems, coerceLiteralItems, coerceLiteral_congr vars vars' item false hconst.1,
      coerceLiteralItems_congr vars vars' rest hconst.2]

theorem deferLiterals_congr (vars vars' : Variables) : ∀ (entries : List (String × Literal)),
    Literal.EntriesConstant entries →
      deferLiterals types vars entries = deferLiterals types vars' entries
  | [], _ => by rw [deferLiterals, deferLiterals]
  | (key, literal) :: rest, hconst => by
    rw [deferLiterals, deferLiterals, coerceLiteral_congr vars vars' literal true hconst.1,
      deferLiterals_congr vars vars' rest hconst.2]

end

end Coercion

end GraphQL
