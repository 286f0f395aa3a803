import GraphQL.Proofs.Coercion.Literals

/-!
# Faults inside

A coercion that is told a place reports faults there or further inside, never outside. So every step on
the way to a fault leads one step deeper, and there is an end to that.

Places are lists whose first segment is the innermost one, so to be inside of a place is to have it
for a suffix. The rules let the recursion of a coercion be followed without looking at what it
computes: whatever is put together in sequence fails inside if its parts do, and a part at a deeper
place fails inside of the outer one too.

* `Coerced.Fails` — a coercion fails with an error, and `Coerced.fails_bind` — a sequence of two fails in
  the first or, if that has a value, in the second;
* `Coerced.FailsInside` — a coercion fails only inside of a place, with a rule for each way to put
  coercions together;
* `coerceConstant_failsInside`, `coerceLiteral_failsInside` — constants and literals do.
-/

namespace GraphQL

namespace Coerced

variable {α β : Type}

/-- The coercion fails with the error. -/
def Fails (result : Coerced α) (error : InputValueError) : Prop := result = .error (.invalid error)

section Fails

variable {error : InputValueError} {first : Coerced α} {path : ValuePath}

theorem not_fails_ok (value : α) : ¬ Fails (.ok value : Coerced α) error := nofun

theorem not_fails_endless : ¬ Fails (.error .endless : Coerced α) error := nofun

theorem fails_fault {fault : InputFault} :
    Fails (Coerced.fault fault path : Coerced α) error ↔ error = ⟨fault, path⟩ := by
  simp [Fails, Coerced.fault, eq_comm]

theorem fails_map {f : α → β} : Fails (first.map f) error ↔ first.Fails error := by
  cases first <;> simp [Fails, Except.map]

theorem fails_bind {next : α → Coerced β} : Fails (first >>= next) error ↔
    first.Fails error ∨ ∃ value, first = .ok value ∧ (next value).Fails error := by
  cases first <;> simp [Fails, Bind.bind, Except.bind]

end Fails

/-- The coercion does not fail outside of the place. -/
def FailsInside (path : ValuePath) (result : Coerced α) : Prop :=
  ∀ error, result.Fails error → path <:+ error.path

namespace FailsInside

variable {path : ValuePath} {first : Coerced α}

theorem ok (value : α) : FailsInside path (.ok value : Coerced α) :=
  fun _ h => absurd h (not_fails_ok value)

theorem fault (fault : InputFault) : FailsInside path (Coerced.fault fault path : Coerced α) := by
  intro error h
  obtain rfl := fails_fault.mp h
  exact List.suffix_refl path

theorem map (h : FailsInside path first) (f : α → β) : FailsInside path (first.map f) :=
  fun error hfails => h error (fails_map.mp hfails)

theorem bind {next : α → Coerced β} (h : FailsInside path first)
    (hnext : ∀ value, FailsInside path (next value)) : FailsInside path (first >>= next) := by
  intro error hfails
  rcases fails_bind.mp hfails with hfails | ⟨value, _, hfails⟩
  · exact h error hfails
  · exact hnext value error hfails

/-- What fails inside of a part fails inside of the whole. -/
theorem outer {segment : PathSegment} (h : FailsInside (segment :: path) first) : FailsInside path first :=
  fun error hfails => (List.suffix_cons segment path).trans (h error hfails)

end FailsInside

end Coerced

open Coerced

/-- A coercion does not fail outside of where it is. -/
def Deferred.FailsInside (deferred : Deferred) : Prop :=
  ∀ ty path, Coerced.FailsInside path (deferred ty path)

/-- The same of a literal. -/
def DeferredLiteral.FailsInside (literal : DeferredLiteral) : Prop :=
  ∀ ty path, Coerced.FailsInside path (literal ty path)

namespace Coercion

variable {types : TypeSystem} {vars : Variables}

/-! ### Constants -/

theorem coerceScalar_failsInside (parse : Value → Except ScalarError Value) (scalar : ScalarType)
    (value : Value) (path : ValuePath) : FailsInside path (coerceScalar parse scalar value path) := by
  rw [coerceScalar]
  split
  · exact .ok _
  · exact .fault _

theorem coerceEnumName_failsInside (type : EnumType) (name : String) (path : ValuePath) :
    FailsInside path (coerceEnumName type name path) := by
  rw [coerceEnumName]
  split
  · exact .ok _
  · exact .fault _

section Constants

variable {expand : Value → Deferred}

/-- The fields of an input object fail at its place or further inside. The induction is on the
declared fields: a field that is given or defaulted fails below its own segment, while a missing or
an unknown one is a fault of the object. -/
theorem coerceFields_failsInside (hexpand : ∀ fallback, (expand fallback).FailsInside)
    {object : InputObjectType} {path : ValuePath} {fields : List InputValueDefinition}
    {given : Entries Deferred} (hgiven : ∀ entry ∈ given, entry.2.FailsInside) :
    FailsInside path (coerceFields expand object path fields given) := by
  induction fields generalizing given with
  | nil =>
    -- What is left over is at fault at the place of the object.
    cases given with
    | nil => exact .ok []
    | cons entry rest => exact .fault _
  | cons field fields ih =>
    rw [coerceFields]
    -- A field fails at its own place, which is inside of that of the object.
    cases hfound : Entries.get? given field.name with
    | some deferred =>
      refine .bind (hgiven _ (Entries.get?_mem hfound) field.type _).outer fun value => ?_
      exact .bind (ih fun entry hmem => hgiven entry (Entries.mem_of_mem_swapErase hmem)) fun _ => .ok _
    | none =>
      cases field.fallback with
      | some fallback =>
        refine .bind (hexpand fallback field.type _).outer fun value => ?_
        exact .bind (ih hgiven) fun _ => .ok _
      -- It is missing, which is a fault of the object.
      | none =>
        simp only [Option.map_none, Option.none_or]
        split
        · exact .fault _
        · exact ih hgiven

theorem coerceNamed_failsInside (hexpand : ∀ fallback, (expand fallback).FailsInside) (value : Value)
    {given : Option (Entries Deferred)}
    (hgiven : ∀ entries, given = some entries → ∀ entry ∈ entries, entry.2.FailsInside) :
    (coerceNamed types expand value given).FailsInside := by
  intro ty path
  rw [coerceNamed]
  split
  next scalar _ => exact coerceScalar_failsInside _ scalar value path
  next type _ =>
    split
    · exact coerceEnumName_failsInside type _ path
    · exact coerceEnumName_failsInside type _ path
    · exact .fault _
  next object _ =>
    -- Something that is no object is at fault where it is.
    cases given with
    | none => exact .fault _
    | some entries => exact .map (coerceFields_failsInside hexpand (hgiven entries rfl)) _
  next => exact .fault _

theorem coerceSingle_failsInside {named : Deferred} (h : named.FailsInside) (lenient : Bool)
    (kind : ValueKind) : (coerceSingle lenient kind named).FailsInside := by
  intro ty path
  rw [coerceSingle]
  split
  · split
    · exact (h ty path).map _
    · exact .fault _
  · exact h ty path

/-- Values that are neither null nor composite. -/
theorem coerceLeaf_failsInside (hexpand : ∀ fallback, (expand fallback).FailsInside) (value : Value)
    (lenient : Bool) :
    (coerceSingle lenient value.kind (coerceNamed types expand value none)).FailsInside :=
  coerceSingle_failsInside
    (coerceNamed_failsInside hexpand value fun _ hsome => absurd hsome (by simp)) lenient value.kind

mutual

/-- **Constants fail inside**, if the expansions of defaults do. -/
theorem coerceValue_failsInside (hexpand : ∀ fallback, (expand fallback).FailsInside) :
    ∀ (value : Value) (lenient : Bool), (coerceValue types expand lenient value).FailsInside
  | .null, lenient => fun ty path => by
    -- Null is at fault where it is; everything else goes on at the same place or below it.
    rw [coerceValue]
    split
    · exact .fault _
    · exact .ok _
  | .list items, lenient => fun ty path => by
    rw [coerceValue]
    split
    · exact .map (coerceItems_failsInside hexpand items _ path 0) _
    · exact coerceNamed_failsInside hexpand (.list items) (fun _ hsome => absurd hsome (by simp)) ty path
  | .object entries, lenient => fun ty path => by
    rw [coerceValue]
    -- The entries fail at the places of their fields, when these are known.
    refine coerceSingle_failsInside (coerceNamed_failsInside hexpand (.object entries) ?_) lenient _ ty path
    exact fun _ hgiven => Option.some.inj hgiven ▸ deferEntries_failInside hexpand entries
  | .bool b, lenient => coerceLeaf_failsInside hexpand (.bool b) lenient
  | .number n, lenient => coerceLeaf_failsInside hexpand (.number n) lenient
  | .string s, lenient => coerceLeaf_failsInside hexpand (.string s) lenient
  | .enum name, lenient => coerceLeaf_failsInside hexpand (.enum name) lenient
  | .binary bytes, lenient => coerceLeaf_failsInside hexpand (.binary bytes) lenient

theorem coerceItems_failsInside (hexpand : ∀ fallback, (expand fallback).FailsInside) :
    ∀ (items : List Value) (ty : TypeRef) (path : ValuePath) (index : Nat),
      FailsInside path (coerceItems types expand items ty path index)
  | [], _, _, _ => .ok []
  | item :: rest, ty, path, index => by
    rw [coerceItems]
    refine .bind (coerceValue_failsInside hexpand item false ty _).outer fun value => ?_
    exact .bind (coerceItems_failsInside hexpand rest ty path (index + 1)) fun _ => .ok _

theorem deferEntries_failInside (hexpand : ∀ fallback, (expand fallback).FailsInside) :
    ∀ (entries : List (String × Value)), ∀ entry ∈ deferEntries types expand entries, entry.2.FailsInside
  | [], _, hmem => absurd hmem List.not_mem_nil
  | (key, value) :: rest, entry, hmem => by
    rw [deferEntries] at hmem
    rcases List.mem_cons.mp hmem with rfl | hmem
    · exact coerceValue_failsInside hexpand value true
    · exact deferEntries_failInside hexpand rest entry hmem

end

end Constants

/-- Defaults, however deep they may nest. -/
theorem expandDefault_failsInside (depth : Nat) (value : Value) :
    (expandDefault types depth value).FailsInside := by
  induction depth generalizing value with
  | zero => exact fun _ _ _ h => absurd h not_fails_endless
  | succ depth ih => exact coerceValue_failsInside ih value true

/-- **Constants fail inside of where they are.** -/
theorem coerceConstant_failsInside (value : Value) : (coerceConstant types value).FailsInside :=
  expandDefault_failsInside _ value

/-! ### Literals -/

theorem coerceVariable_failsInside (name : String) :
    DeferredLiteral.FailsInside (coerceVariable vars name) := by
  intro ty path
  rw [coerceVariable]
  split
  · split
    · exact .fault _
    · exact .ok _
  · exact .ok _

/-- The fields of an object literal. The induction is on the declared fields. -/
theorem coerceLiteralFields_failsInside {object : InputObjectType} {path : ValuePath}
    {given : Entries DeferredLiteral} (hgiven : ∀ entry ∈ given, entry.2.FailsInside)
    (fields : List InputValueDefinition) :
    FailsInside path (coerceLiteralFields types object path given fields) := by
  induction fields with
  | nil => exact .ok []
  | cons field fields ih =>
    rw [coerceLiteralFields]
    cases hfound : Entries.get? given field.name
    case' some literal =>
      refine .bind (hgiven _ (Entries.get?_mem hfound) field.type _).outer fun value => ?_
    case' none => refine .bind (.ok none) fun value => ?_
    all_goals
      -- The field has the value that is written, its default, or none.
      beta_reduce
      split
      · exact .bind ih fun _ => .ok _
      · exact .bind (coerceConstant_failsInside _ field.type _).outer fun _ => .bind ih fun _ => .ok _
      · split
        · exact .fault _
        · exact ih

theorem coerceLiteralNamed_failsInside (literal : Literal) {given : Option (Entries DeferredLiteral)}
    (hgiven : ∀ entries, given = some entries → ∀ entry ∈ entries, entry.2.FailsInside) :
    DeferredLiteral.FailsInside (coerceLiteralNamed types vars literal given) := by
  intro ty path
  rw [coerceLiteralNamed]
  split
  next scalar _ => exact .map (coerceScalar_failsInside _ scalar _ path) some
  next type _ =>
    split
    · exact .map (coerceEnumName_failsInside type _ path) some
    · exact .fault _
  next object _ =>
    cases given with
    -- Something that is no object is at fault where it is.
    | none => exact .fault _
    | some entries =>
      refine .map ?_ some
      rw [coerceLiteralObject]
      split
      · exact .fault _
      · exact .map (coerceLiteralFields_failsInside (hgiven entries rfl) _) _
  next => exact .fault _

theorem coerceLiteralSingle_failsInside {named : DeferredLiteral} (h : named.FailsInside) (lenient : Bool)
    (kind : ValueKind) : (coerceLiteralSingle lenient kind named).FailsInside := by
  intro ty path
  rw [coerceLiteralSingle]
  split
  · split
    · exact (h ty path).map _
    · exact .fault _
  · exact h ty path

/-- Literals that are neither null, a variable nor composite. -/
theorem coerceLeafLiteral_failsInside (literal : Literal) (lenient : Bool) :
    (coerceLiteralSingle lenient literal.kind (coerceLiteralNamed types vars literal none)).FailsInside :=
  coerceLiteralSingle_failsInside
    (coerceLiteralNamed_failsInside literal fun _ hsome => absurd hsome (by simp)) lenient literal.kind

mutual

/-- **Literals fail inside of where they are.** The recursion is that of the literal. -/
theorem coerceLiteral_failsInside : ∀ (literal : Literal) (lenient : Bool),
    DeferredLiteral.FailsInside (coerceLiteral types vars lenient literal)
  | .var name, lenient => coerceVariable_failsInside name
  | .null, lenient => fun ty path => by
    rw [coerceLiteral]
    split
    · exact .fault _
    · exact .ok _
  | .list items, lenient => fun ty path => by
    rw [coerceLiteral]
    split
    · exact .map (coerceLiteralItems_failsInside items _ path 0) _
    · exact coerceLiteralNamed_failsInside (.list items) (fun _ hsome => absurd hsome (by simp)) ty path
  | .object entries, lenient => fun ty path => by
    rw [coerceLiteral]
    refine coerceLiteralSingle_failsInside (coerceLiteralNamed_failsInside (.object entries) ?_) lenient _
      ty path
    -- The entries fail at the places of their fields, when these are known.
    exact fun _ hgiven => Option.some.inj hgiven ▸ deferLiterals_failInside entries
  | .bool b, lenient => coerceLeafLiteral_failsInside (.bool b) lenient
  | .number n, lenient => coerceLeafLiteral_failsInside (.number n) lenient
  | .string s, lenient => coerceLeafLiteral_failsInside (.string s) lenient
  | .enum name, lenient => coerceLeafLiteral_failsInside (.enum name) lenient

theorem coerceLiteralItems_failsInside :
    ∀ (items : List Literal) (ty : TypeRef) (path : ValuePath) (index : Nat),
      FailsInside path (coerceLiteralItems types vars items ty path index)
  | [], _, _, _ => .ok []
  | item :: rest, ty, path, index => by
    rw [coerceLiteralItems]
    refine .bind (coerceLiteral_failsInside item false ty _).outer fun value => ?_
    have hrest := coerceLiteralItems_failsInside rest ty path (index + 1)
    split
    · exact .bind (.ok _) fun _ => .bind hrest fun _ => .ok _
    · split
      · exact .bind (FailsInside.fault _).outer fun _ => .bind hrest fun _ => .ok _
      · exact .bind (.ok _) fun _ => .bind hrest fun _ => .ok _

theorem deferLiterals_failInside : ∀ (entries : List (String × Literal)),
    ∀ entry ∈ deferLiterals types vars entries, entry.2.FailsInside
  | [], _, hmem => absurd hmem List.not_mem_nil
  | (key, literal) :: rest, entry, hmem => by
    rw [deferLiterals] at hmem
    rcases List.mem_cons.mp hmem with rfl | hmem
    · exact coerceLiteral_failsInside literal true
    · exact deferLiterals_failInside rest entry hmem

end

end Coercion

end GraphQL
