import GraphQL.Proofs.Execution.InlinedCollection
import Mathlib.Data.List.Perm.Subperm

/-!
# The traversal of a collection

A collection walks through selections depth-first. It opens inline fragments, and enters a named
fragment where it first comes across it. That a fragment spreads itself is no obstacle: it is not
entered again. `Traverses` is this walk without any limit on its depth, one rule for each thing that
can be done with the next selection. A collection has a limit, the number of fragments, and never
comes up to it: along a nest of entered fragments each is another one.

* `Traverses` — which fields a walk comes across, in order, and which fragments it has met at its end;
* `Traverses.unique` — there is one walk at most;
* `collectWithin_traverses`, `collectFields_traverses` — and there always is one: it ends, and the
  collection files the fields that it comes across;
* `Traverses.account` — what a walk is made of: the selections themselves and each fragment that it
  enters contribute their fields once, and no spread is left that has not been met.
-/

namespace GraphQL

namespace Selection

/-- The directives of a selection. -/
def directives : Selection → List Directive
  | .field node => node.directives
  | .spread _ directives => directives
  | .inline _ directives _ => directives

end Selection

namespace ExecutionContext

/-- Which fields a walk through selections comes across, in order, and which fragments it has met at
its end if the first ones were met before. -/
inductive Traverses (ctx : ExecutionContext) (object : ObjectType) :
    List String → List Selection → List Field → List String → Prop
  /-- Nothing is left. -/
  | done {met : List String} : Traverses ctx object met [] [] met
  /-- The directives of the next selection leave it out. -/
  | excluded {met met' : List String} {selection : Selection} {rest : List Selection}
      {fields : List Field} (hexcluded : shouldInclude ctx.vars selection.directives = false)
      (hrest : Traverses ctx object met rest fields met') :
      Traverses ctx object met (selection :: rest) fields met'
  /-- A field. -/
  | field {met met' : List String} {node : Field} {rest : List Selection} {fields : List Field}
      (hkept : shouldInclude ctx.vars node.directives = true)
      (hrest : Traverses ctx object met rest fields met') :
      Traverses ctx object met (.field node :: rest) (node :: fields) met'
  /-- An inline fragment that applies. -/
  | inline {met met₁ met₂ : List String} {condition : Option String} {directives : List Directive}
      {selections rest : List Selection} {fields fields' : List Field}
      (hkept : shouldInclude ctx.vars directives = true)
      (happlies : condition.all (conditionMatches ctx.schema.types · object) = true)
      (hbelow : Traverses ctx object met selections fields met₁)
      (hrest : Traverses ctx object met₁ rest fields' met₂) :
      Traverses ctx object met (.inline condition directives selections :: rest) (fields ++ fields')
        met₂
  /-- An inline fragment for other types. -/
  | otherInline {met met' : List String} {condition : Option String}
      {directives : List Directive} {selections rest : List Selection} {fields : List Field}
      (hkept : shouldInclude ctx.vars directives = true)
      (hother : condition.all (conditionMatches ctx.schema.types · object) = false)
      (hrest : Traverses ctx object met rest fields met') :
      Traverses ctx object met (.inline condition directives selections :: rest) fields met'
  /-- A named fragment that has been met before. -/
  | again {met met' : List String} {name : String} {directives : List Directive}
      {rest : List Selection} {fields : List Field}
      (hkept : shouldInclude ctx.vars directives = true) (hmet : name ∈ met)
      (hrest : Traverses ctx object met rest fields met') :
      Traverses ctx object met (.spread name directives :: rest) fields met'
  /-- A named fragment that is met, and unknown or for other types. -/
  | passed {met met' : List String} {name : String} {directives : List Directive}
      {rest : List Selection} {fields : List Field}
      (hkept : shouldInclude ctx.vars directives = true) (hmet : name ∉ met)
      (hother : ∀ fragment, Entries.get? ctx.fragments name = some fragment →
        conditionMatches ctx.schema.types fragment.condition object = false)
      (hrest : Traverses ctx object (name :: met) rest fields met') :
      Traverses ctx object met (.spread name directives :: rest) fields met'
  /-- A named fragment that is met, and entered. -/
  | entered {met met₁ met₂ : List String} {name : String} {directives : List Directive}
      {fragment : FragmentDefinition} {rest : List Selection} {fields fields' : List Field}
      (hkept : shouldInclude ctx.vars directives = true) (hmet : name ∉ met)
      (hget : Entries.get? ctx.fragments name = some fragment)
      (happlies : conditionMatches ctx.schema.types fragment.condition object = true)
      (hbelow : Traverses ctx object (name :: met) fragment.selections fields met₁)
      (hrest : Traverses ctx object met₁ rest fields' met₂) :
      Traverses ctx object met (.spread name directives :: rest) (fields ++ fields') met₂

namespace Traverses

variable {ctx : ExecutionContext} {object : ObjectType} {met met' met₁ met₂ : List String}
  {selections selections' : List Selection} {fields fields' : List Field}

/-- Two walks, one after the other. -/
theorem append (h : Traverses ctx object met selections fields met₁)
    (h' : Traverses ctx object met₁ selections' fields' met₂) :
    Traverses ctx object met (selections ++ selections') (fields ++ fields') met₂ := by
  induction h with
  | done => exact h'
  | excluded hexcluded _ ih => exact .excluded hexcluded (ih h')
  | field hkept _ ih => exact .field hkept (ih h')
  | inline hkept happlies hbelow _ _ ih =>
    rw [List.append_assoc]
    exact .inline hkept happlies hbelow (ih h')
  | otherInline hkept hother _ ih => exact .otherInline hkept hother (ih h')
  | again hkept hmet _ ih => exact .again hkept hmet (ih h')
  | passed hkept hmet hother _ ih => exact .passed hkept hmet hother (ih h')
  | entered hkept hmet hget happlies hbelow _ _ ih =>
    rw [List.append_assoc]
    exact .entered hkept hmet hget happlies hbelow (ih h')

/-- What has been met stays met. -/
theorem subset (h : Traverses ctx object met selections fields met') : met ⊆ met' := by
  induction h with
  | done => exact List.Subset.refl _
  | excluded _ _ ih | field _ _ ih | otherInline _ _ _ ih | again _ _ _ ih => exact ih
  | inline _ _ _ _ ihbelow ihrest => exact List.Subset.trans ihbelow ihrest
  | passed _ _ _ _ ih => exact List.subset_of_cons_subset ih
  | entered _ _ _ _ _ _ ihbelow ihrest =>
    exact List.subset_of_cons_subset (List.Subset.trans ihbelow ihrest)

/-- **There is one walk at most** through given selections. What the next rule is depends on the next
selection and on what has been met. -/
theorem unique (h : Traverses ctx object met selections fields met₁)
    (h' : Traverses ctx object met selections fields' met₂) : fields = fields' ∧ met₁ = met₂ := by
  -- In each case the guards of the other rules for the same selection contradict that of the first.
  induction h generalizing fields' met₂ with
  | done =>
    cases h'
    exact ⟨rfl, rfl⟩
  | excluded hexcluded _ ih =>
    cases h' with
    | excluded _ hrest => exact ih hrest
    | field hkept | inline hkept | otherInline hkept | again hkept | passed hkept | entered hkept =>
      exact Bool.noConfusion (hexcluded.symm.trans hkept)
  | field hkept _ ih =>
    cases h' with
    | excluded hexcluded => exact Bool.noConfusion (hexcluded.symm.trans hkept)
    | field _ hrest =>
      obtain ⟨rfl, rfl⟩ := ih hrest
      exact ⟨rfl, rfl⟩
  | inline hkept happlies _ _ ihbelow ihrest =>
    cases h' with
    | excluded hexcluded => exact Bool.noConfusion (hexcluded.symm.trans hkept)
    | otherInline _ hother => exact Bool.noConfusion (hother.symm.trans happlies)
    | inline _ _ hbelow hrest =>
      obtain ⟨rfl, rfl⟩ := ihbelow hbelow
      obtain ⟨rfl, rfl⟩ := ihrest hrest
      exact ⟨rfl, rfl⟩
  | otherInline hkept hother _ ih =>
    cases h' with
    | excluded hexcluded => exact Bool.noConfusion (hexcluded.symm.trans hkept)
    | otherInline _ _ hrest => exact ih hrest
    | inline _ happlies => exact Bool.noConfusion (hother.symm.trans happlies)
  | again hkept hmet _ ih =>
    cases h' with
    | excluded hexcluded => exact Bool.noConfusion (hexcluded.symm.trans hkept)
    | again _ _ hrest => exact ih hrest
    | passed _ hnew | entered _ hnew => exact absurd hmet hnew
  | passed hkept hmet hother _ ih =>
    cases h' with
    | excluded hexcluded => exact Bool.noConfusion (hexcluded.symm.trans hkept)
    | again _ hknown => exact absurd hknown hmet
    | passed _ _ _ hrest => exact ih hrest
    | entered _ _ hget happlies => exact Bool.noConfusion ((hother _ hget).symm.trans happlies)
  | entered hkept hmet hget happlies _ _ ihbelow ihrest =>
    cases h' with
    | excluded hexcluded => exact Bool.noConfusion (hexcluded.symm.trans hkept)
    | again _ hknown => exact absurd hknown hmet
    | passed _ _ hother => exact Bool.noConfusion ((hother _ hget).symm.trans happlies)
    | entered _ _ hget' _ hbelow hrest =>
      obtain rfl := Option.some.inj (hget.symm.trans hget')
      obtain ⟨rfl, rfl⟩ := ihbelow hbelow
      obtain ⟨rfl, rfl⟩ := ihrest hrest
      exact ⟨rfl, rfl⟩

end Traverses

/-! ### Collections are traversals -/

/-- How many fragments have not been met. -/
def unmet (ctx : ExecutionContext) (met : List String) : Nat :=
  ((Entries.keys ctx.fragments).filter fun name => !met.contains name).length

section Collections

variable {ctx : ExecutionContext} {object : ObjectType} {met met' : List String} {name : String}

theorem unmet_le_length (ctx : ExecutionContext) (met : List String) :
    ctx.unmet met ≤ ctx.fragments.length :=
  (List.length_filter_le _ _).trans (List.length_map _).le

theorem unmet_anti (h : met ⊆ met') : ctx.unmet met' ≤ ctx.unmet met := by
  refine (List.monotone_filter_right _ fun name hunmet => ?_).length_le
  simp only [Bool.not_eq_eq_eq_not, Bool.not_true, List.contains_eq_mem, decide_eq_false_iff_not]
    at hunmet ⊢
  exact fun hmem => hunmet (h hmem)

/-- Meeting a known fragment leaves one less. -/
theorem unmet_cons_lt {fragment : FragmentDefinition}
    (hget : Entries.get? ctx.fragments name = some fragment) (hmet : name ∉ met) :
    ctx.unmet (name :: met) < ctx.unmet met := by
  -- The name is one of those that are left, and no longer one of them afterwards.
  have hkey : name ∈ Entries.keys ctx.fragments :=
    (Entries.get?_isSome_iff_mem_keys _ _).mp (hget ▸ rfl)
  have hfewer : (Entries.keys ctx.fragments).filter (fun other => !(name :: met).contains other) =
      ((Entries.keys ctx.fragments).filter fun other => !met.contains other).filter
        fun other => !other == name := by
    rw [List.filter_filter]
    refine List.filter_congr fun other _ => ?_
    rw [List.contains_cons, Bool.not_or]
  rw [unmet, hfewer]
  refine List.length_filter_lt_length_iff_exists.mpr ⟨name, ?_, by simp⟩
  exact List.mem_filter.mpr ⟨hkey, by simpa using hmet⟩

/-- A collected state is reached by walking through selections. -/
def Collects (ctx : ExecutionContext) (object : ObjectType) (selections : List Selection)
    (collected result : Collected) : Prop :=
  ∃ fields met, Traverses ctx object collected.visited selections fields met ∧
    result = ⟨collected.groups.addAll fields, met⟩

theorem Collects.append {selections selections' : List Selection}
    {collected middle result : Collected} (h : Collects ctx object selections collected middle)
    (h' : Collects ctx object selections' middle result) :
    Collects ctx object (selections ++ selections') collected result := by
  obtain ⟨fields, met, htraverses, rfl⟩ := h
  obtain ⟨fields', met', htraverses', rfl⟩ := h'
  exact ⟨_, _, htraverses.append htraverses', by rw [FieldGroups.addAll_append]⟩

theorem Collects.unmet_le {selections : List Selection} {collected result : Collected}
    (h : Collects ctx object selections collected result) :
    ctx.unmet result.visited ≤ ctx.unmet collected.visited := by
  obtain ⟨_, _, htraverses, rfl⟩ := h
  exact unmet_anti htraverses.subset

/-- What entering a fragment does as long as fewer fragments than the limit have not been met. -/
def Enters (ctx : ExecutionContext) (object : ObjectType) (limit : Nat)
    (enter : FragmentDefinition → Collected → Collected) : Prop :=
  ∀ fragment collected, ctx.unmet collected.visited < limit →
    Collects ctx object fragment.selections collected (enter fragment collected)

/-- A spread takes one step of the walk. The fragment that is entered counts no longer as unmet, so
the limit is enough for what it spreads. -/
theorem collectSpread_collects {limit : Nat} {enter : FragmentDefinition → Collected → Collected}
    (henter : Enters ctx object limit enter) (name : String) (directives : List Directive)
    (collected : Collected) (hlimit : ctx.unmet collected.visited ≤ limit) :
    Collects ctx object [.spread name directives] collected
      (collectSelection ctx object enter (.spread name directives) collected) := by
  rw [collectSelection]
  by_cases hkept : shouldInclude ctx.vars directives = true
  -- The spread is kept. Whether the fragment is entered depends on what has been met.
  · by_cases hmet : name ∈ collected.visited
    · rw [if_pos (by simp [hmet])]
      exact ⟨[], _, .again hkept hmet .done, rfl⟩
    · rw [if_neg (by simp [hkept, hmet])]
      cases hget : Entries.get? ctx.fragments name with
      | none =>
        -- A name without a fragment is met and passed by.
        have hunknown : ∀ fragment, Entries.get? ctx.fragments name = some fragment →
            conditionMatches ctx.schema.types fragment.condition object = false :=
          fun _ hsome => nomatch hget.symm.trans hsome
        exact ⟨[], _, .passed hkept hmet hunknown .done, rfl⟩
      | some fragment =>
        by_cases happlies : conditionMatches ctx.schema.types fragment.condition object = true
        · simp only [happlies, if_true]
          obtain ⟨fields, met, htraverses, hresult⟩ := henter fragment
            { collected with visited := name :: collected.visited }
            -- One fragment less is unmet, so that the limit lasts.
            ((unmet_cons_lt hget hmet).trans_le hlimit)
          refine ⟨fields ++ [], met, .entered hkept hmet hget happlies htraverses .done, ?_⟩
          rw [hresult, List.append_nil]
        · simp only [happlies]
          refine ⟨[], _, .passed hkept hmet (fun other hother => ?_) .done, rfl⟩
          obtain rfl := Option.some.inj (hget.symm.trans hother)
          simpa using happlies
  -- The spread is left out.
  · rw [if_pos (by simp [hkept])]
    exact ⟨[], _, .excluded (Bool.eq_false_iff.mpr hkept) .done, rfl⟩

mutual

/-- Collecting selections walks through them. The recursion is that of the selections; fragments are
up to `enter`. -/
theorem collectSelections_collects {limit : Nat}
    {enter : FragmentDefinition → Collected → Collected} (henter : Enters ctx object limit enter)
    (selections : List Selection) (collected : Collected)
    (hlimit : ctx.unmet collected.visited ≤ limit) :
    Collects ctx object selections collected
      (collectSelections ctx object enter selections collected) :=
  match selections with
  | [] => ⟨[], _, .done, rfl⟩
  | selection :: rest => by
    have hfirst := collectSelection_collects henter selection collected hlimit
    rw [collectSelections]
    exact hfirst.append
      (collectSelections_collects henter rest _ (hfirst.unmet_le.trans hlimit))
termination_by structural selections

theorem collectSelection_collects {limit : Nat}
    {enter : FragmentDefinition → Collected → Collected} (henter : Enters ctx object limit enter)
    (selection : Selection) (collected : Collected)
    (hlimit : ctx.unmet collected.visited ≤ limit) :
    Collects ctx object [selection] collected
      (collectSelection ctx object enter selection collected) :=
  match selection with
  | .field node => by
    rw [collectSelection]
    split
    next hkept => exact ⟨[node], _, .field hkept .done, rfl⟩
    next hleft => exact ⟨[], _, .excluded (Bool.eq_false_iff.mpr hleft) .done, rfl⟩
  | .spread name directives => collectSpread_collects henter name directives collected hlimit
  | .inline condition directives selections => by
    -- The selections inside are collected first, whether they are asked for or not.
    obtain ⟨fields, met, htraverses, hresult⟩ :=
      collectSelections_collects henter selections collected hlimit
    rw [collectSelection]
    cases hkept : shouldInclude ctx.vars directives with
    | false => exact ⟨[], _, .excluded hkept .done, rfl⟩
    | true =>
      cases happlies : condition.all (conditionMatches ctx.schema.types · object) with
      | false => exact ⟨[], _, .otherInline hkept happlies .done, rfl⟩
      | true =>
        refine ⟨fields ++ [], met, .inline hkept happlies htraverses .done, ?_⟩
        rw [List.append_nil]
        exact hresult
termination_by structural selection

end

/-- **A collection within a limit is a walk** if the limit is no less than the number of fragments
that have not been met. The induction is on the limit. -/
theorem collectWithin_collects (limit : Nat) (selections : List Selection) (collected : Collected)
    (hlimit : ctx.unmet collected.visited ≤ limit) :
    Collects ctx object selections collected
      (ctx.collectWithin object limit selections collected) := by
  induction limit generalizing selections collected with
  | zero =>
    exact collectSelections_collects (fun _ _ hless => absurd hless (Nat.not_lt_zero _)) selections
      collected hlimit
  | succ limit ih =>
    have henter : Enters ctx object (limit + 1) fun fragment =>
        ctx.collectWithin object limit fragment.selections :=
      fun fragment collected hless => ih fragment.selections collected (Nat.le_of_lt_succ hless)
    exact collectSelections_collects henter selections collected hlimit

/-- **Every collection is a walk that ends**, through the sets one after the other. -/
theorem collectFields_traverses (ctx : ExecutionContext) (object : ObjectType)
    (selectionSets : List (List Selection)) :
    ∃ fields met, Traverses ctx object [] selectionSets.flatten fields met ∧
      ctx.collectFields object selectionSets = FieldGroups.addAll [] fields := by
  -- The sets are collected one after the other, so that this is shown from any collection on.
  suffices h : ∀ collected : Collected, Collects ctx object selectionSets.flatten collected
      (selectionSets.foldl (fun collected selections =>
        ctx.collectWithin object ctx.fragments.length selections collected) collected) by
    obtain ⟨fields, met, htraverses, hresult⟩ := h .empty
    exact ⟨fields, met, htraverses, congrArg Collected.groups hresult⟩
  induction selectionSets with
  | nil => exact fun _ => ⟨[], _, .done, rfl⟩
  | cons selections rest ih =>
    intro collected
    rw [List.flatten_cons, List.foldl_cons]
    exact (collectWithin_collects _ selections collected (ctx.unmet_le_length _)).append (ih _)

end Collections

/-! ### What a walk is made of -/

mutual

/-- The names of the fragments that some selections spread for an object. They are not entered. -/
def spreadAmong (vars : Variables) (types : TypeSystem) (object : ObjectType) :
    List Selection → List String
  | [] => []
  | selection :: rest => spreadBy vars types object selection ++ spreadAmong vars types object rest

/-- The names of the fragments that a selection spreads for an object. -/
def spreadBy (vars : Variables) (types : TypeSystem) (object : ObjectType) :
    Selection → List String
  | .field _ => []
  | .spread name directives => if shouldInclude vars directives then [name] else []
  | .inline condition directives selections =>
      if shouldInclude vars directives && condition.all (conditionMatches types · object) then
        spreadAmong vars types object selections
      else []

end

/-- The fields that the selections of a fragment contribute to an object. -/
def contributed (ctx : ExecutionContext) (object : ObjectType) (name : String) : List Field :=
  match Entries.get? ctx.fragments name with
  | some fragment =>
      if conditionMatches ctx.schema.types fragment.condition object then
        selectedAmong ctx.vars ctx.schema.types object fragment.selections
      else []
  | none => []

/-- What a walk is made of: the fields of the selections themselves and those of each fragment that it
meets, and no spread is left over. -/
structure Account (ctx : ExecutionContext) (object : ObjectType) (met : List String)
    (selections : List Selection) (fields : List Field) (met' names : List String) : Prop where
  mem_met : ∀ name, name ∈ met' ↔ name ∈ met ∨ name ∈ names
  nodup : names.Nodup
  fresh : ∀ name ∈ names, name ∉ met
  fields_perm : fields.Perm (selectedAmong ctx.vars ctx.schema.types object selections ++
    names.flatMap (ctx.contributed object))
  spreads : spreadAmong ctx.vars ctx.schema.types object selections ⊆ met'
  closed : ∀ name ∈ names, ∀ fragment, Entries.get? ctx.fragments name = some fragment →
    conditionMatches ctx.schema.types fragment.condition object = true →
    spreadAmong ctx.vars ctx.schema.types object fragment.selections ⊆ met'

section Accounts

variable {ctx : ExecutionContext} {object : ObjectType} {met met₁ met₂ : List String}
  {selections selections' : List Selection} {fields fields' : List Field}
  {names names' : List String}

theorem selectedAmong_append (vars : Variables) (types : TypeSystem) (object : ObjectType)
    (selections selections' : List Selection) :
    selectedAmong vars types object (selections ++ selections') =
      selectedAmong vars types object selections ++ selectedAmong vars types object selections' := by
  induction selections with
  | nil => rfl
  | cons selection rest ih => rw [List.cons_append, selectedAmong, selectedAmong, ih, List.append_assoc]

theorem spreadAmong_append (vars : Variables) (types : TypeSystem) (object : ObjectType)
    (selections selections' : List Selection) :
    spreadAmong vars types object (selections ++ selections') =
      spreadAmong vars types object selections ++ spreadAmong vars types object selections' := by
  induction selections with
  | nil => rfl
  | cons selection rest ih => rw [List.cons_append, spreadAmong, spreadAmong, ih, List.append_assoc]

theorem Account.subset (h : Account ctx object met selections fields met₁ names) : met ⊆ met₁ :=
  fun name hmem => (h.mem_met name).mpr (.inl hmem)

/-- Two walks, one after the other. What the second one meets is new to the first one as well. -/
theorem Account.append (h : Account ctx object met selections fields met₁ names)
    (h' : Account ctx object met₁ selections' fields' met₂ names') :
    Account ctx object met (selections ++ selections') (fields ++ fields') met₂
      (names ++ names') where
  mem_met name := by rw [h'.mem_met, h.mem_met, List.mem_append, or_assoc]
  nodup := by
    refine List.nodup_append'.mpr ⟨h.nodup, h'.nodup, fun name hmem hmem' => ?_⟩
    exact h'.fresh name hmem' ((h.mem_met name).mpr (.inr hmem))
  fresh name hmem := (List.mem_append.mp hmem).elim (h.fresh name) fun hmem' hmet =>
    h'.fresh name hmem' (h.subset hmet)
  fields_perm := by
    -- The fragments of the first walk stand before the fields of the second one, and change places.
    rw [selectedAmong_append, List.flatMap_append, List.append_assoc, ← List.append_assoc _ (names.flatMap _)]
    refine (h.fields_perm.append h'.fields_perm).trans ?_
    rw [List.append_assoc]
    exact ((List.perm_append_comm_assoc _ _ _).trans (by rw [List.append_assoc])).append_left _
  spreads := by
    rw [spreadAmong_append]
    exact List.append_subset.mpr ⟨List.Subset.trans h.spreads h'.subset, h'.spreads⟩
  closed name hmem fragment hget happlies := (List.mem_append.mp hmem).elim
    (fun hmem => List.Subset.trans (h.closed name hmem fragment hget happlies) h'.subset)
    fun hmem' => h'.closed name hmem' fragment hget happlies

theorem Account.cons {selection : Selection}
    (h : Account ctx object met [selection] fields met₁ names)
    (h' : Account ctx object met₁ selections fields' met₂ names') :
    Account ctx object met (selection :: selections) (fields ++ fields') met₂ (names ++ names') :=
  h.append h'

/-- Selections that contribute nothing, and spread what has been met. -/
theorem Account.nothing (hselected : selectedAmong ctx.vars ctx.schema.types object selections = [])
    (hspread : spreadAmong ctx.vars ctx.schema.types object selections ⊆ met) :
    Account ctx object met selections [] met [] where
  mem_met name := by simp
  nodup := List.nodup_nil
  fresh _ hmem := absurd hmem List.not_mem_nil
  fields_perm := by rw [hselected]; exact .nil
  spreads := hspread
  closed _ hmem := absurd hmem List.not_mem_nil

/-- Selections that select what others do. -/
theorem Account.congr (h : Account ctx object met selections fields met₁ names)
    (hselected : selectedAmong ctx.vars ctx.schema.types object selections' =
      selectedAmong ctx.vars ctx.schema.types object selections)
    (hspread : spreadAmong ctx.vars ctx.schema.types object selections' =
      spreadAmong ctx.vars ctx.schema.types object selections) :
    Account ctx object met selections' fields met₁ names :=
  { h with fields_perm := hselected ▸ h.fields_perm, spreads := hspread ▸ h.spreads }

/-- A fragment is met, and its selections are walked through if they apply. From then on it counts
as met, so no second spread of it contributes anything, and its own names are among those of the
walk. -/
theorem Account.meet {name : String} {directives : List Directive}
    (hkept : shouldInclude ctx.vars directives = true) (hnew : name ∉ met)
    (hcontributed : ctx.contributed object name =
      selectedAmong ctx.vars ctx.schema.types object selections)
    (hclosed : ∀ fragment, Entries.get? ctx.fragments name = some fragment →
      conditionMatches ctx.schema.types fragment.condition object = true →
      fragment.selections = selections)
    (h : Account ctx object (name :: met) selections fields met₁ names) :
    Account ctx object met [.spread name directives] fields met₁ (name :: names) where
  mem_met other := by rw [h.mem_met, List.mem_cons, List.mem_cons, or_assoc, or_left_comm]
  nodup := List.nodup_cons.mpr ⟨fun hmem => h.fresh name hmem List.mem_cons_self, h.nodup⟩
  fresh other hmem := by
    rcases List.mem_cons.mp hmem with rfl | hmem
    · exact hnew
    · exact fun hmet => h.fresh other hmem (List.mem_cons_of_mem _ hmet)
  fields_perm := by
    rw [List.flatMap_cons, hcontributed]
    exact h.fields_perm
  spreads := by
    have hspread : spreadAmong ctx.vars ctx.schema.types object [.spread name directives] =
        [name] := by
      rw [spreadAmong, spreadBy, if_pos hkept]
      rfl
    rw [hspread]
    exact List.cons_subset.mpr ⟨h.subset List.mem_cons_self, List.nil_subset _⟩
  closed other hmem fragment hget happlies := by
    rcases List.mem_cons.mp hmem with rfl | hmem
    -- The fragment itself has just been walked through, the others are those of that walk.
    · rw [hclosed fragment hget happlies]
      exact h.spreads
    · exact h.closed other hmem fragment hget happlies

theorem selectedAmong_singleton (selection : Selection) :
    selectedAmong ctx.vars ctx.schema.types object [selection] =
      selectedBy ctx.vars ctx.schema.types object selection :=
  List.append_nil _

theorem spreadAmong_singleton (selection : Selection) :
    spreadAmong ctx.vars ctx.schema.types object [selection] =
      spreadBy ctx.vars ctx.schema.types object selection :=
  List.append_nil _

/-- What its directives leave out contributes nothing. -/
theorem Account.excluded {selection : Selection}
    (hexcluded : shouldInclude ctx.vars selection.directives = false) :
    Account ctx object met [selection] [] met [] := by
  refine .nothing ?_ ?_
  · rw [selectedAmong_singleton]
    cases selection <;> simp_all [Selection.directives, selectedBy]
  · rw [spreadAmong_singleton]
    cases selection <;> simp_all [Selection.directives, spreadBy]

/-- **Every walk has an account.** The induction is on the walk, with one case for each rule. A rule
that meets no fragment adds nothing to the names; one that enters a fragment adds its name, and what
is collected inside counts for that name. -/
theorem Traverses.account (h : Traverses ctx object met selections fields met₁) :
    ∃ names, Account ctx object met selections fields met₁ names := by
  induction h with
  | done => exact ⟨[], .nothing rfl (List.nil_subset _)⟩
  | excluded hexcluded _ ih =>
    obtain ⟨names, hrest⟩ := ih
    exact ⟨_, (Account.excluded hexcluded).cons hrest⟩
  | @field met met' node _ _ hkept _ ih =>
    obtain ⟨names, hrest⟩ := ih
    -- A field meets no fragment and is what it selects itself.
    have hnothing : Account ctx object met [] [] met [] := .nothing rfl (List.nil_subset _)
    have hnode : Account ctx object met [.field node] [node] met [] :=
      { hnothing with
        fields_perm := by rw [selectedAmong_singleton, selectedBy, if_pos hkept]; exact .refl _ }
    exact ⟨_, hnode.cons hrest⟩
  | inline hkept happlies _ _ ihbelow ihrest =>
    obtain ⟨names, hbelow⟩ := ihbelow
    obtain ⟨names', hrest⟩ := ihrest
    refine ⟨_, (hbelow.congr ?_ ?_).cons hrest⟩
    -- What is inside of an inline fragment that applies counts for it.
    · rw [selectedAmong_singleton, selectedBy, hkept, happlies, Bool.and_self, if_pos rfl]
    · rw [spreadAmong_singleton, spreadBy, hkept, happlies, Bool.and_self, if_pos rfl]
  | otherInline hkept hother _ ih =>
    obtain ⟨names, hrest⟩ := ih
    refine ⟨_, (Account.nothing ?_ ?_).cons hrest⟩
    -- What is inside of an inline fragment that does not apply is neither selected nor spread.
    · rw [selectedAmong_singleton, selectedBy, hother, Bool.and_false]
      rfl
    · rw [spreadAmong_singleton, spreadBy, hother, Bool.and_false]
      exact List.nil_subset _
  | again hkept hmet _ ih =>
    obtain ⟨names, hrest⟩ := ih
    refine ⟨_, (Account.nothing (selectedAmong_singleton _) ?_).cons hrest⟩
    -- The name has been met before, so that the account leaves it out.
    rw [spreadAmong_singleton, spreadBy, if_pos hkept]
    exact List.cons_subset.mpr ⟨hmet, List.nil_subset _⟩
  | @passed _ _ name _ _ _ hkept hmet hother _ ih =>
    obtain ⟨names, hrest⟩ := ih
    -- A fragment that does not apply contributes nothing, and neither does one that is not there.
    have hnothing : ctx.contributed object name = [] := by
      rw [contributed]
      cases hget : Entries.get? ctx.fragments name with
      | none => rfl
      | some fragment => simp [hother fragment hget]
    have hclosed : ∀ fragment, Entries.get? ctx.fragments name = some fragment →
        conditionMatches ctx.schema.types fragment.condition object = true →
        fragment.selections = [] :=
      fun fragment hget happlies => Bool.noConfusion ((hother fragment hget).symm.trans happlies)
    exact ⟨_, (Account.meet hkept hmet hnothing hclosed
      (.nothing rfl (List.nil_subset _))).cons hrest⟩
  | @entered _ _ _ name _ fragment _ _ _ hkept hmet hget happlies _ _ ihbelow ihrest =>
    obtain ⟨names, hbelow⟩ := ihbelow
    obtain ⟨names', hrest⟩ := ihrest
    -- A fragment that applies contributes what is collected inside of it.
    have hcontributed : ctx.contributed object name =
        selectedAmong ctx.vars ctx.schema.types object fragment.selections := by
      simp only [contributed, hget, happlies, if_true]
    refine ⟨_, (Account.meet hkept hmet hcontributed (fun other hother _ => ?_) hbelow).cons hrest⟩
    rw [Option.some.inj (hother.symm.trans hget)]

end Accounts

end ExecutionContext

end GraphQL
