import GraphQL.Proofs.Execution.Traversal
import GraphQL.Proofs.Schema.Integrity
import GraphQL.Proofs.Schema.PossibleTypes

/-!
# Reached fields

Which fields are selected for an object type can be said without a walk: those that can be reached
through selections that their directives keep, and through fragments whose type condition names the
object type, an interface that it declares or a union that lists it. Fragments that spread each other
do no harm to this: a field is reached on some way through finitely many of them, or not at all.

* `TypeSystem.Applies`, `conditionMatches_iff_applies` — which type conditions match an object type of a
  schema that a builder has made;
* `Reaches` — a field can be reached from selections;
* `Traverses.reaches` — a walk comes across no other fields;
* `Account.mem_of_reaches`, `Traverses.mem_iff_reaches` — and across all of them. A spread that its
  directives leave out does not count as met, and a fragment that has been met is walked through, so no
  spread hides a later one.
-/

namespace GraphQL

/-! ### Type conditions -/

/-- A type condition applies to an object type: it names the type, an interface that the type declares or
a union that lists it. -/
def TypeSystem.Applies (types : TypeSystem) (object : ObjectType) (condition : String) : Prop :=
  condition = object.name ∨ condition ∈ object.interfaces ∨
    ∃ union, types.type? condition = some (.union union) ∧ object.name ∈ union.members

namespace SchemaBuilder

variable {query : String} {mutation subscription : Option String} {calls : List BuilderCall}
  {schema : Schema}

/-- An object type of a well-named table is the only one of its name, so it is an implementor of exactly
the interfaces that it declares. -/
theorem WellNamed.mem_implementors_iff {types : Entries TypeDefinition} (h : WellNamed types)
    {object : ObjectType} (hobject : Entries.get? types object.name = some (.object object))
    (interface : String) :
    object.name ∈ implementors types interface ↔ interface ∈ object.interfaces := by
  rw [implementors, List.mem_filterMap]
  constructor
  -- Whoever is listed is an object type of this name, and there is only one.
  · rintro ⟨⟨key, definition⟩, hmem, hfound⟩
    cases definition with
    | object other =>
      dsimp only at hfound
      split at hfound
      next hdeclares =>
        have hname : other.name = object.name := Option.some.inj hfound
        have hother : Entries.get? types other.name = some (.object other) :=
          h.get?_name (List.mem_map_of_mem hmem)
        rw [hname, hobject] at hother
        obtain rfl : object = other := TypeDefinition.object.inj (Option.some.inj hother)
        exact List.contains_iff_mem.mp hdeclares
      next => cases hfound
    | scalar | interface | union | enum | inputObject => cases hfound
  · intro hdeclares
    exact ⟨_, Entries.get?_mem hobject, if_pos (List.contains_iff_mem.mpr hdeclares)⟩

/-- **Type conditions match the object types that they apply to**, in every schema that a builder
makes. The code compares names and looks up what the condition names; that the interfaces and unions
it finds are the declared ones is what the builder has checked. -/
theorem conditionMatches_iff_applies
    (hfinish : (ofCalls query mutation subscription calls).finish = .ok schema)
    {object : ObjectType} (hobject : schema.types.object? object.name = some object)
    (condition : String) :
    ExecutionContext.conditionMatches schema.types condition object = true ↔
      schema.types.Applies object condition := by
  have haccepted := accepted_of_finish hfinish
  have htypes : schema.types.types = definitions (ofCalls query mutation subscription calls).types := by
    rw [haccepted.types]
  have hnamed : WellNamed schema.types.types := htypes ▸ definitions_ofCalls_wellNamed
  have hwellFormed := exists_finish_ofCalls_iff.mp ⟨schema, hfinish⟩
  rw [← htypes] at hwellFormed
  have hfound : Entries.get? schema.types.types object.name = some (.object object) :=
    TypeSystem.object?_eq_some_iff.mp hobject
  rw [ExecutionContext.conditionMatches, Bool.or_eq_true, beq_iff_eq, TypeSystem.isPossibleType,
    List.contains_iff_mem, TypeSystem.possibleNames_eq hnamed haccepted.possible_eq,
    TypeSystem.Applies]
  refine or_congr_right ?_
  -- What the object declares is an interface.
  have hdeclared : condition ∈ object.interfaces →
      ∃ interface, schema.types.type? condition = some (.interface interface) := fun hmem =>
    (hwellFormed.interfaces object (Entries.mem_values_of_get? hfound) condition hmem).imp
      fun _ => And.left
  -- Only an interface or a union is a condition that other types than itself satisfy.
  cases htype : schema.types.type? condition with
  | none => simp_all
  | some definition =>
    cases definition with
    | interface interface =>
      have hname : interface.name = condition := hnamed.name_eq htype
      simp [namesFor, hname, hnamed.mem_implementors_iff hfound]
    | union union => simp_all [namesFor]
    | scalar | object | enum | inputObject => simp_all [namesFor]

end SchemaBuilder

namespace ExecutionContext

/-! ### Reachable fields -/

/-- The directives keep a selection: there is no `@skip` whose condition holds, and no `@include` whose
condition does not. -/
def Keeps (vars : Variables) (directives : List Directive) : Prop :=
  ∀ directive ∈ directives,
    (directive.name = "skip" → condition? vars directive ≠ some true) ∧
      (directive.name = "include" → condition? vars directive ≠ some false)

theorem shouldInclude_iff_keeps (vars : Variables) (directives : List Directive) :
    shouldInclude vars directives = true ↔ Keeps vars directives := by
  rw [shouldInclude, List.all_eq_true, Keeps]
  refine forall₂_congr fun directive _ => ?_
  split
  next hname hcondition => simp [hname, hcondition]
  next hname hcondition => simp [hname, hcondition]
  next hskip hinclude => exact ⟨fun _ => ⟨fun h h' => hskip h h', fun h h' => hinclude h h'⟩, fun _ => rfl⟩

/-- A field that can be reached from some selections: every selection on the way is kept, and the
fragments on the way are for the object. There is no saying in which order, or how often. -/
inductive Reaches (ctx : ExecutionContext) (object : ObjectType) : List Selection → Field → Prop
  /-- It is one of the selections. -/
  | field {selections : List Selection} {node : Field} (hmem : .field node ∈ selections)
      (hkept : Keeps ctx.vars node.directives) : Reaches ctx object selections node
  /-- It is reached from an inline fragment. -/
  | inline {selections below : List Selection} {condition : Option String}
      {directives : List Directive} {node : Field}
      (hmem : .inline condition directives below ∈ selections) (hkept : Keeps ctx.vars directives)
      (happlies : ∀ name ∈ condition, ctx.schema.types.Applies object name)
      (hbelow : Reaches ctx object below node) : Reaches ctx object selections node
  /-- It is reached from a named fragment. -/
  | fragment {selections : List Selection} {name : String} {directives : List Directive}
      {fragment : FragmentDefinition} {node : Field}
      (hmem : .spread name directives ∈ selections) (hkept : Keeps ctx.vars directives)
      (hget : Entries.get? ctx.fragments name = some fragment)
      (happlies : ctx.schema.types.Applies object fragment.condition)
      (hbelow : Reaches ctx object fragment.selections node) : Reaches ctx object selections node

/-- Type conditions match an object type exactly if they apply to it. -/
def MatchesWhatApplies (ctx : ExecutionContext) (object : ObjectType) : Prop :=
  ∀ condition, conditionMatches ctx.schema.types condition object = true ↔
    ctx.schema.types.Applies object condition

section Reached

variable {ctx : ExecutionContext} {object : ObjectType} {met met' names : List String}
  {selections selections' : List Selection} {fields : List Field} {node : Field}

theorem Reaches.mono (h : Reaches ctx object selections node) (hsubset : selections ⊆ selections') :
    Reaches ctx object selections' node := by
  cases h with
  | field hmem hkept => exact .field (hsubset hmem) hkept
  | inline hmem hkept happlies hbelow => exact .inline (hsubset hmem) hkept happlies hbelow
  | fragment hmem hkept hget happlies hbelow => exact .fragment (hsubset hmem) hkept hget happlies hbelow

variable (hmatches : ctx.MatchesWhatApplies object)
include hmatches

theorem MatchesWhatApplies.all_iff (condition : Option String) :
    condition.all (conditionMatches ctx.schema.types · object) = true ↔
      ∀ name ∈ condition, ctx.schema.types.Applies object name := by
  rw [Option.all_eq_true]
  exact forall₂_congr fun name _ => hmatches name

/-- **What a walk comes across can be reached.** The induction is on the walk. A field that is found
in this step is one of the selections, and one that is found inside of a fragment can be reached
through it. -/
theorem Traverses.reaches (h : Traverses ctx object met selections fields met') :
    ∀ node ∈ fields, Reaches ctx object selections node := by
  induction h with
  | done => exact fun _ hmem => absurd hmem List.not_mem_nil
  -- Nothing is collected in this step, and what is collected later can be reached from more
  -- selections.
  | excluded _ _ ih | otherInline _ _ _ ih | again _ _ _ ih | passed _ _ _ _ ih =>
    exact fun node hmem => (ih node hmem).mono (List.subset_cons_self _ _)
  | field hkept _ ih =>
    intro node hmem
    rcases List.mem_cons.mp hmem with rfl | hmem
    -- The field itself is one of the selections.
    · exact .field List.mem_cons_self ((shouldInclude_iff_keeps _ _).mp hkept)
    · exact (ih node hmem).mono (List.subset_cons_self _ _)
  | inline hkept happlies _ _ ihbelow ihrest =>
    intro node hmem
    rcases List.mem_append.mp hmem with hmem | hmem
    -- What is collected inside of the fragment can be reached through it.
    · exact .inline List.mem_cons_self ((shouldInclude_iff_keeps _ _).mp hkept)
        ((hmatches.all_iff _).mp happlies) (ihbelow node hmem)
    · exact (ihrest node hmem).mono (List.subset_cons_self _ _)
  | entered hkept _ hget happlies _ _ ihbelow ihrest =>
    intro node hmem
    rcases List.mem_append.mp hmem with hmem | hmem
    · exact .fragment List.mem_cons_self ((shouldInclude_iff_keeps _ _).mp hkept) hget
        ((hmatches _).mp happlies) (ihbelow node hmem)
    · exact (ihrest node hmem).mono (List.subset_cons_self _ _)

omit hmatches in
theorem selectedBy_subset {selection : Selection} (hmem : selection ∈ selections) :
    selectedBy ctx.vars ctx.schema.types object selection ⊆
      selectedAmong ctx.vars ctx.schema.types object selections := by
  obtain ⟨before, after, rfl⟩ := List.append_of_mem hmem
  rw [selectedAmong_append, selectedAmong]
  exact List.subset_append_of_subset_right _ (List.subset_append_left _ _)

omit hmatches in
theorem spreadBy_subset {selection : Selection} (hmem : selection ∈ selections) :
    spreadBy ctx.vars ctx.schema.types object selection ⊆
      spreadAmong ctx.vars ctx.schema.types object selections := by
  obtain ⟨before, after, rfl⟩ := List.append_of_mem hmem
  rw [spreadAmong_append, spreadAmong]
  exact List.subset_append_of_subset_right _ (List.subset_append_left _ _)

/-- What can be reached is contributed by the selections, or by a fragment, if the names that the
selections spread are among those of a walk. The induction is on how it is reached: a walk that starts
out with nothing met has walked through every fragment whose name it has met, so the spreads in it are
among its names again. -/
theorem Account.mem_of_reaches {root : List Selection}
    (h : Account ctx object [] root fields met names) (hreaches : Reaches ctx object selections node)
    (hspreads : spreadAmong ctx.vars ctx.schema.types object selections ⊆ met) :
    node ∈ selectedAmong ctx.vars ctx.schema.types object selections ∨
      node ∈ names.flatMap (ctx.contributed object) := by
  induction hreaches with
  | field hmem hkept =>
    -- The field is one of the selections that are kept.
    refine .inl (selectedBy_subset hmem ?_)
    rw [selectedBy, if_pos ((shouldInclude_iff_keeps _ _).mpr hkept)]
    exact List.mem_singleton_self _
  | @inline _ _ condition directives _ hmem hkept happlies _ ih =>
    -- An inline fragment that applies selects, and spreads, what stands inside of it.
    have hopen : (shouldInclude ctx.vars directives &&
        condition.all (conditionMatches ctx.schema.types · object)) = true :=
      Bool.and_eq_true_iff.mpr
        ⟨(shouldInclude_iff_keeps _ _).mpr hkept, (hmatches.all_iff _).mpr happlies⟩
    have hspread := List.Subset.trans (spreadBy_subset hmem) hspreads
    have hselected : selectedBy ctx.vars ctx.schema.types object (.inline condition directives _) ⊆
        selectedAmong ctx.vars ctx.schema.types object _ := selectedBy_subset hmem
    rw [spreadBy, if_pos hopen] at hspread
    rw [selectedBy, if_pos hopen] at hselected
    exact (ih hspread).imp_left fun hnode => hselected hnode
  | @fragment _ name directives fragment _ hmem hkept hget happlies _ ih =>
    -- The fragment has been met, so that it is one of those that contribute.
    have hname : name ∈ names := by
      have hmet : name ∈ met := by
        refine hspreads (spreadBy_subset hmem ?_)
        rw [spreadBy, if_pos ((shouldInclude_iff_keeps _ _).mpr hkept)]
        exact List.mem_singleton_self _
      exact ((h.mem_met name).mp hmet).resolve_left List.not_mem_nil
    -- Whatever can be reached in it is selected in it, or is contributed by one of the others.
    have hmatch := (hmatches fragment.condition).mpr happlies
    refine .inr ((ih (h.closed name hname fragment hget hmatch)).elim (fun hnode => ?_) id)
    refine List.mem_flatMap.mpr ⟨name, hname, ?_⟩
    simpa only [contributed, hget, hmatch, if_true] using hnode

/-- **A walk comes across a field exactly if it can be reached**, if nothing has been met before. -/
theorem Traverses.mem_iff_reaches (h : Traverses ctx object [] selections fields met) :
    node ∈ fields ↔ Reaches ctx object selections node := by
  refine ⟨h.reaches hmatches node, fun hreaches => ?_⟩
  obtain ⟨names, haccount⟩ := h.account
  rw [haccount.fields_perm.mem_iff, List.mem_append]
  exact haccount.mem_of_reaches hmatches hreaches haccount.spreads

end Reached

end ExecutionContext

end GraphQL
