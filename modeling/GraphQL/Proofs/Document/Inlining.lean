import GraphQL.Execution.Basic
import Mathlib.Data.Finset.Card
import Mathlib.Logic.Relation

/-!
# Inlining fragments

A named fragment can be written out where it is spread: an inline fragment with the type condition
and the selections of the named one and the directives of the spread selects the same. Writing out a
fragment can bring up further spreads, so it is repeated until none is left. That comes to an end
because fragments do not spread themselves, and it takes no more rounds than there are fragments.

* `Document.inlined` — the document with all its fragments written out;
* `Fragments.Acyclic` — no fragment spreads itself, directly or through others;
* `Fragments.rank` — the number of fragments that can be reached from a fragment; it drops from a
  fragment to those that it spreads (`rank_lt_rank`), so whatever follows spreads recurses on it;
* `Fragments.expansion_eq` — what stands for a spread is an inline fragment with the selections of
  the named one, themselves written out;
* `Selection.heights_inlined_le` — how deep the fields of inlined selections nest.
-/

namespace GraphQL

/-! ### Spreads and their replacement -/

mutual

/-- The names of the fragments that a selection spreads, at any depth. -/
def Selection.spreads : Selection → List String
  | .field node => FieldNode.spreads node
  | .spread fragment _ => [fragment]
  | .inline _ _ selections => Selection.spreadsAmong selections

/-- The names of the fragments that are spread below a field. -/
def FieldNode.spreads : FieldNode Selection → List String
  | ⟨_, _, _, _, selections, _⟩ => Selection.spreadsAmong selections

/-- The names of the fragments that some selections spread, at any depth. -/
def Selection.spreadsAmong : List Selection → List String
  | [] => []
  | selection :: rest => selection.spreads ++ Selection.spreadsAmong rest

end

mutual

/-- A selection with other selections in place of its spreads, at any depth. -/
def Selection.replaceSpreads (replacement : String → List Directive → Selection) :
    Selection → Selection
  | .field node => .field (FieldNode.replaceSpreads replacement node)
  | .spread fragment directives => replacement fragment directives
  | .inline condition directives selections =>
      .inline condition directives (Selection.replaceAmong replacement selections)

/-- A field with other selections in place of the spreads below it. -/
def FieldNode.replaceSpreads (replacement : String → List Directive → Selection) :
    FieldNode Selection → FieldNode Selection
  | ⟨label, name, arguments, directives, selections, location⟩ =>
      ⟨label, name, arguments, directives, Selection.replaceAmong replacement selections, location⟩

/-- Selections with other selections in place of their spreads. -/
def Selection.replaceAmong (replacement : String → List Directive → Selection) :
    List Selection → List Selection
  | [] => []
  | selection :: rest =>
      selection.replaceSpreads replacement :: Selection.replaceAmong replacement rest

end

namespace Fragments

/-- What stands for a spread: an inline fragment with the type condition and the selections of the
fragment and the directives of the spread. Spreads among the selections are written out in turn, at
most as deep as the given number. A spread of an unknown fragment selects nothing. -/
def expandWithin (fragments : Entries FragmentDefinition) :
    Nat → String → List Directive → Selection
  | 0, _, _ => .inline none [] []
  | depth + 1, name, directives =>
      match Entries.get? fragments name with
      | some fragment =>
          .inline (some fragment.condition) directives
            (Selection.replaceAmong (expandWithin fragments depth) fragment.selections)
      | none => .inline none [] []

/-- What stands for a spread. Fragments that do not spread themselves nest no deeper than there are
fragments. -/
def expansion (fragments : Entries FragmentDefinition) : String → List Directive → Selection :=
  expandWithin fragments fragments.length

end Fragments

/-- Selections with all fragments written out. -/
def Selection.inlined (fragments : Entries FragmentDefinition) : List Selection → List Selection :=
  Selection.replaceAmong (Fragments.expansion fragments)

/-- A field with all fragments below it written out. -/
def FieldNode.inlined (fragments : Entries FragmentDefinition) (node : Field) : Field :=
  FieldNode.replaceSpreads (Fragments.expansion fragments) node

/-- An operation with all fragments written out. -/
def OperationDefinition.inlined (fragments : Entries FragmentDefinition)
    (operation : OperationDefinition) : OperationDefinition :=
  { operation with selections := Selection.inlined fragments operation.selections }

/-- Operations with all fragments written out. -/
def Operations.inlined (fragments : Entries FragmentDefinition) : Operations → Operations
  | .anonymous operation => .anonymous (operation.inlined fragments)
  | .named operations =>
      .named (operations.map fun entry => (entry.1, entry.2.inlined fragments))

/-- A document with all its fragments written out, and none left. -/
def Document.inlined (document : Document) : Document where
  operations := document.operations.inlined document.fragments
  fragments := []

/-- Only the selections of a field are changed. -/
theorem FieldNode.inlined_eq (fragments : Entries FragmentDefinition) (node : Field) :
    node.inlined fragments =
      { node with selections := Selection.inlined fragments node.selections } := by
  cases node
  rfl

@[simp] theorem FieldNode.inlined_name (fragments : Entries FragmentDefinition) (node : Field) :
    (node.inlined fragments).name = node.name := by
  rw [FieldNode.inlined_eq]

@[simp] theorem FieldNode.inlined_directives (fragments : Entries FragmentDefinition)
    (node : Field) : (node.inlined fragments).directives = node.directives := by
  rw [FieldNode.inlined_eq]

@[simp] theorem FieldNode.inlined_selections (fragments : Entries FragmentDefinition)
    (node : Field) :
    (node.inlined fragments).selections = Selection.inlined fragments node.selections := by
  rw [FieldNode.inlined_eq]

@[simp] theorem FieldNode.inlined_responseKey (fragments : Entries FragmentDefinition)
    (node : Field) : (node.inlined fragments).responseKey = node.responseKey := by
  rw [FieldNode.inlined_eq]
  rfl

section Replacement

variable {replacement replacement' : String → List Directive → Selection}

mutual

/-- Replacements that agree on the spreads of selections give the same selections. The recursion is
that of the selections. -/
theorem Selection.replaceSpreads_congr (selection : Selection)
    (h : ∀ name ∈ selection.spreads, replacement name = replacement' name) :
    selection.replaceSpreads replacement = selection.replaceSpreads replacement' :=
  match selection with
  | .field ⟨_, _, _, _, selections, _⟩ => by
    rw [Selection.replaceSpreads, Selection.replaceSpreads, FieldNode.replaceSpreads,
      FieldNode.replaceSpreads, Selection.replaceAmong_congr selections h]
  | .spread name directives => congrFun (h name List.mem_cons_self) directives
  | .inline _ _ selections => by
    rw [Selection.replaceSpreads, Selection.replaceSpreads,
      Selection.replaceAmong_congr selections h]
termination_by structural selection

theorem Selection.replaceAmong_congr (selections : List Selection)
    (h : ∀ name ∈ Selection.spreadsAmong selections, replacement name = replacement' name) :
    Selection.replaceAmong replacement selections =
      Selection.replaceAmong replacement' selections :=
  match selections with
  | [] => rfl
  | selection :: rest => by
    rw [Selection.replaceAmong, Selection.replaceAmong,
      Selection.replaceSpreads_congr selection fun name hname =>
        h name (List.mem_append_left _ hname),
      Selection.replaceAmong_congr rest fun name hname => h name (List.mem_append_right _ hname)]
termination_by structural selections

end

end Replacement

/-! ### Fragments that do not spread themselves -/

namespace Fragments

variable {fragments : Entries FragmentDefinition} {name other : String}
  {fragment : FragmentDefinition}

/-- The fragment of one name spreads that of another one, which is known as well. -/
def Spreads (fragments : Entries FragmentDefinition) (name other : String) : Prop :=
  ∃ fragment, Entries.get? fragments name = some fragment ∧
    other ∈ Selection.spreadsAmong fragment.selections ∧ (Entries.get? fragments other).isSome

/-- No fragment spreads itself, directly or through others. -/
def Acyclic (fragments : Entries FragmentDefinition) : Prop :=
  ∀ name, ¬ Relation.TransGen (Spreads fragments) name name

/-- No fragment spreads itself if some measure drops along spreads. -/
theorem acyclic_of_decreasing (measure : String → Nat)
    (h : ∀ name other, Spreads fragments name other → measure other < measure name) :
    Acyclic fragments := by
  have hpath : ∀ name other, Relation.TransGen (Spreads fragments) name other →
      measure other < measure name := by
    intro name other hpath
    induction hpath with
    | single hspread => exact h _ _ hspread
    | tail _ hspread ih => exact (h _ _ hspread).trans ih
  exact fun name hcircle => Nat.lt_irrefl _ (hpath name name hcircle)

open Classical in
/-- The number of fragments that a fragment spreads, directly or through others. -/
noncomputable def rank (fragments : Entries FragmentDefinition) (name : String) : Nat :=
  ((Entries.keys fragments).toFinset.filter (Relation.TransGen (Spreads fragments) name)).card

/-- The rank drops along spreads: what a fragment reaches, the fragments that spread it reach as
well, and they reach the fragment itself. -/
theorem rank_lt_rank (hacyclic : Acyclic fragments) (h : Spreads fragments name other) :
    rank fragments other < rank fragments name := by
  classical
  -- The rank counts the fragments that are reached, so it is smaller if fewer of them are.
  refine Finset.card_lt_card ((Finset.ssubset_iff_of_subset ?_).mpr ⟨other, ?_, ?_⟩)
  · intro reached hreached
    obtain ⟨hkey, hpath⟩ := Finset.mem_filter.mp hreached
    exact Finset.mem_filter.mpr ⟨hkey, .head h hpath⟩
  · have hkey : other ∈ Entries.keys fragments :=
      (Entries.get?_isSome_iff_mem_keys fragments other).mp h.choose_spec.2.2
    exact Finset.mem_filter.mpr ⟨List.mem_toFinset.mpr hkey, .single h⟩
  · intro hself
    exact hacyclic other (Finset.mem_filter.mp hself).2

/-- The rank of a fragment is less than the number of fragments, as it does not reach itself. -/
theorem rank_lt_length (hacyclic : Acyclic fragments)
    (hget : Entries.get? fragments name = some fragment) :
    rank fragments name < fragments.length := by
  classical
  have hkey : name ∈ (Entries.keys fragments).toFinset :=
    List.mem_toFinset.mpr
      ((Entries.get?_isSome_iff_mem_keys fragments name).mp (hget ▸ rfl))
  -- A fragment does not reach itself, so at least one is not reached.
  have hproper : (Entries.keys fragments).toFinset.filter
      (Relation.TransGen (Spreads fragments) name) ⊂ (Entries.keys fragments).toFinset :=
    Finset.filter_ssubset.mpr ⟨name, hkey, hacyclic name⟩
  calc rank fragments name
      < (Entries.keys fragments).toFinset.card := Finset.card_lt_card hproper
    _ ≤ (Entries.keys fragments).length := List.toFinset_card_le _
    _ = fragments.length := List.length_map _

/-- The known fragments among some names have ranks below a bound. -/
def RankBelow (fragments : Entries FragmentDefinition) (bound : Nat) (names : List String) : Prop :=
  ∀ name ∈ names, ∀ fragment, Entries.get? fragments name = some fragment →
    rank fragments name < bound

theorem RankBelow.mono {bound bound' : Nat} {names : List String}
    (h : RankBelow fragments bound names) (hle : bound ≤ bound') :
    RankBelow fragments bound' names :=
  fun name hmem fragment hget => (h name hmem fragment hget).trans_le hle

theorem RankBelow.of_mem {bound : Nat} {names : List String}
    (h : RankBelow fragments bound names) (hmem : name ∈ names) :
    RankBelow fragments bound [name] :=
  List.forall_mem_singleton.mpr (h name hmem)

theorem rankBelow_length (hacyclic : Acyclic fragments) (names : List String) :
    RankBelow fragments fragments.length names :=
  fun _ _ _ hget => rank_lt_length hacyclic hget

/-- What a fragment spreads ranks below it. -/
theorem rankBelow_rank (hacyclic : Acyclic fragments)
    (hget : Entries.get? fragments name = some fragment) :
    RankBelow fragments (rank fragments name) (Selection.spreadsAmong fragment.selections) := by
  intro other hspread definition hother
  exact rank_lt_rank hacyclic ⟨fragment, hget, hspread, hother ▸ rfl⟩

/-! ### What stands for a spread -/

/-- Beyond the rank of a fragment, the depth to which spreads are written out makes no difference.
The induction is on a bound of the ranks. -/
theorem expandWithin_eq (hacyclic : Acyclic fragments) (bound : Nat) {depth depth' : Nat}
    (hdepth : bound ≤ depth) (hdepth' : bound ≤ depth')
    (hrank : RankBelow fragments bound [name]) :
    expandWithin fragments depth name = expandWithin fragments depth' name := by
  induction bound generalizing depth depth' name with
  | zero =>
    -- Nothing ranks below zero, so the fragment is unknown.
    have hunknown : Entries.get? fragments name = none := by
      cases hget : Entries.get? fragments name with
      | none => rfl
      | some fragment =>
        exact absurd (hrank name List.mem_cons_self fragment hget) (Nat.not_lt_zero _)
    have hnothing : ∀ depth, expandWithin fragments depth name =
        fun _ => .inline none [] [] := by
      intro depth
      funext directives
      cases depth with
      | zero => rfl
      | succ depth => rw [expandWithin, hunknown]
    rw [hnothing, hnothing]
  | succ bound ih =>
    -- There is a level left on both sides, and both of them use it for the same fragment.
    obtain ⟨depth, rfl⟩ := Nat.exists_eq_succ_of_ne_zero (Nat.ne_zero_of_lt hdepth)
    obtain ⟨depth', rfl⟩ := Nat.exists_eq_succ_of_ne_zero (Nat.ne_zero_of_lt hdepth')
    funext directives
    rw [expandWithin, expandWithin]
    cases hget : Entries.get? fragments name with
    | none => rfl
    | some fragment =>
      have hselections : Selection.replaceAmong (expandWithin fragments depth)
            fragment.selections =
          Selection.replaceAmong (expandWithin fragments depth') fragment.selections := by
        refine Selection.replaceAmong_congr _ fun other hspread => ?_
        -- What the fragment spreads ranks below it, so it ranks below the bound.
        have hname : rank fragments name < bound + 1 :=
          hrank name List.mem_cons_self fragment hget
        have hother : RankBelow fragments bound [other] :=
          ((rankBelow_rank hacyclic hget).mono (Nat.le_of_lt_succ hname)).of_mem hspread
        exact ih (Nat.le_of_succ_le_succ hdepth) (Nat.le_of_succ_le_succ hdepth') hother
      simp only [hselections]

/-- **What stands for a spread** is an inline fragment with the selections of the named one, in
which all fragments are written out as well. -/
theorem expansion_eq (hacyclic : Acyclic fragments)
    (hget : Entries.get? fragments name = some fragment) (directives : List Directive) :
    expansion fragments name directives =
      .inline (some fragment.condition) directives
        (Selection.inlined fragments fragment.selections) := by
  have hlength : rank fragments name < fragments.length := rank_lt_length hacyclic hget
  obtain ⟨depth, hdepth⟩ := Nat.exists_eq_succ_of_ne_zero (Nat.ne_zero_of_lt hlength)
  have hselections : Selection.replaceAmong (expandWithin fragments depth) fragment.selections =
      Selection.inlined fragments fragment.selections := by
    refine Selection.replaceAmong_congr _ fun other hspread => ?_
    exact expandWithin_eq hacyclic (rank fragments name) (by omega) hlength.le
      ((rankBelow_rank hacyclic hget).of_mem hspread)
  rw [expansion, hdepth, expandWithin, hget]
  simp only [hselections]

/-- A spread of an unknown fragment selects nothing. -/
theorem expansion_unknown (hget : Entries.get? fragments name = none)
    (directives : List Directive) :
    expansion fragments name directives = .inline none [] [] := by
  rw [expansion]
  cases fragments.length with
  | zero => rfl
  | succ depth => rw [expandWithin, hget]

end Fragments

/-! ### How deep fields nest -/

mutual

/-- How many fields lie below each other in a selection, where spreads are not followed. -/
def Selection.height : Selection → Nat
  | .field node => FieldNode.height node
  | .spread _ _ => 0
  | .inline _ _ selections => Selection.heights selections

/-- How many fields lie below each other in a selected field, itself included. -/
def FieldNode.height : FieldNode Selection → Nat
  | ⟨_, _, _, _, selections, _⟩ => Selection.heights selections + 1

/-- How many fields lie below each other in some selections. -/
def Selection.heights : List Selection → Nat
  | [] => 0
  | selection :: rest => max selection.height (Selection.heights rest)

end

theorem FieldNode.height_eq (node : Field) :
    node.height = Selection.heights node.selections + 1 := by
  cases node
  rfl

mutual

/-- Selections nest no deeper than there are fields. -/
theorem Selection.height_le_fieldCount (selection : Selection) :
    selection.height ≤ selection.fieldCount :=
  match selection with
  | .field ⟨_, _, _, _, selections, _⟩ => by
    rw [Selection.height, FieldNode.height, Selection.fieldCount, FieldNode.fieldCount]
    exact Nat.succ_le_succ (Selection.heights_le_fieldCounts selections)
  | .spread _ _ => Nat.zero_le _
  | .inline _ _ selections => by
    rw [Selection.height, Selection.fieldCount]
    exact Selection.heights_le_fieldCounts selections
termination_by structural selection

theorem Selection.heights_le_fieldCounts (selections : List Selection) :
    Selection.heights selections ≤ Selection.fieldCounts selections :=
  match selections with
  | [] => Nat.zero_le _
  | selection :: rest => by
    have hfirst := Selection.height_le_fieldCount selection
    have hrest := Selection.heights_le_fieldCounts rest
    rw [Selection.heights, Selection.fieldCounts]
    omega
termination_by structural selections

end

section Heights

variable {replacement : String → List Directive → Selection} {bound : Nat}

mutual

/-- Replacing spreads makes selections higher by what stands for the spreads at most. Without that
they are no higher than their fields are many. -/
private theorem Selection.height_replaceSpreads_le (selection : Selection)
    (h : ∀ name ∈ selection.spreads, ∀ directives,
      (replacement name directives).height ≤ bound) :
    (selection.replaceSpreads replacement).height ≤ selection.fieldCount + bound :=
  match selection with
  -- A field is one higher than its selections, and counts as one.
  | .field ⟨_, _, _, _, selections, _⟩ => by
    have hbelow : Selection.heights (Selection.replaceAmong replacement selections) ≤
        Selection.fieldCounts selections + bound :=
      Selection.heights_replaceAmong_le selections h
    rw [Selection.replaceSpreads, FieldNode.replaceSpreads, Selection.height, FieldNode.height,
      Selection.fieldCount, FieldNode.fieldCount]
    omega
  | .spread name directives =>
    le_trans (h name List.mem_cons_self directives) (Nat.le_add_left _ _)
  | .inline _ _ selections => by
    rw [Selection.replaceSpreads, Selection.height, Selection.fieldCount]
    exact Selection.heights_replaceAmong_le selections h
termination_by structural selection

private theorem Selection.heights_replaceAmong_le (selections : List Selection)
    (h : ∀ name ∈ Selection.spreadsAmong selections, ∀ directives,
      (replacement name directives).height ≤ bound) :
    Selection.heights (Selection.replaceAmong replacement selections) ≤
      Selection.fieldCounts selections + bound :=
  match selections with
  | [] => Nat.zero_le _
  | selection :: rest => by
    have hfirst : (selection.replaceSpreads replacement).height ≤ selection.fieldCount + bound :=
      Selection.height_replaceSpreads_le selection fun name hname =>
        h name (List.mem_append_left _ hname)
    have hrest : Selection.heights (Selection.replaceAmong replacement rest) ≤
        Selection.fieldCounts rest + bound :=
      Selection.heights_replaceAmong_le rest fun name hname =>
        h name (List.mem_append_right _ hname)
    rw [Selection.replaceAmong, Selection.heights, Selection.fieldCounts]
    omega
termination_by structural selections

end

end Heights

namespace Fragments

variable {fragments : Entries FragmentDefinition}

/-- The number of fields in the fragments that rank below a bound, for any ranks. -/
def fieldsBelow (rank : String → Nat) (bound : Nat) : Entries FragmentDefinition → Nat
  | [] => 0
  | (name, fragment) :: rest =>
      (if rank name < bound then Selection.fieldCounts fragment.selections else 0) +
        fieldsBelow rank bound rest

theorem fieldsBelow_mono (rank : String → Nat) (fragments : Entries FragmentDefinition)
    {bound bound' : Nat} (h : bound ≤ bound') :
    fieldsBelow rank bound fragments ≤ fieldsBelow rank bound' fragments := by
  induction fragments with
  | nil => exact Nat.le_refl _
  | cons entry rest ih =>
    rw [fieldsBelow, fieldsBelow]
    split_ifs <;> omega

/-- A fragment that ranks below a bound has room beside those that rank below it. The induction is
on the table. -/
theorem fieldCounts_add_fieldsBelow_le (rank : String → Nat) {name : String}
    {fragment : FragmentDefinition} {bound : Nat}
    (hget : Entries.get? fragments name = some fragment) (hrank : rank name < bound) :
    Selection.fieldCounts fragment.selections + fieldsBelow rank (rank name) fragments ≤
      fieldsBelow rank bound fragments := by
  induction fragments with
  | nil => cases hget
  | cons entry rest ih =>
    rw [fieldsBelow, fieldsBelow]
    rw [Entries.get?] at hget
    split at hget
    next hkey =>
      -- The fragment counts for the bound, and not for its own rank.
      obtain rfl := Option.some.inj hget
      have hrest := fieldsBelow_mono rank rest hrank.le
      rw [hkey, if_neg (Nat.lt_irrefl _), if_pos hrank]
      omega
    next =>
      have hrest := ih hget
      split_ifs <;> omega

/-- What stands for a spread is no higher than there are fields in the fragments that rank below a
bound of its own rank. The induction is on the rank. -/
theorem height_expansion_le (hacyclic : Acyclic fragments) {name : String} {bound : Nat}
    (hrank : RankBelow fragments bound [name]) (directives : List Directive) :
    (expansion fragments name directives).height ≤
      fieldsBelow (rank fragments) bound fragments := by
  -- The fragments that are spread next rank lower, and share what is left of the bound.
  induction bound using Nat.strong_induction_on generalizing name directives with
  | _ bound ih =>
    cases hget : Entries.get? fragments name with
    | none =>
      rw [expansion_unknown hget]
      exact Nat.zero_le _
    | some fragment =>
      have hbelow : rank fragments name < bound := hrank name List.mem_cons_self fragment hget
      rw [expansion_eq hacyclic hget, Selection.height, Selection.inlined]
      calc Selection.heights (Selection.replaceAmong (expansion fragments) fragment.selections)
          ≤ Selection.fieldCounts fragment.selections +
              fieldsBelow (rank fragments) (rank fragments name) fragments := by
            refine Selection.heights_replaceAmong_le _ fun other hspread directives => ?_
            exact ih _ hbelow ((rankBelow_rank hacyclic hget).of_mem hspread) directives
        _ ≤ fieldsBelow (rank fragments) bound fragments :=
            fieldCounts_add_fieldsBelow_le (rank fragments) hget hbelow

end Fragments

theorem Selection.fieldCounts_append (selections others : List Selection) :
    Selection.fieldCounts (selections ++ others) =
      Selection.fieldCounts selections + Selection.fieldCounts others := by
  induction selections with
  | nil => exact (Nat.zero_add _).symm
  | cons selection rest ih =>
    rw [List.cons_append, Selection.fieldCounts, Selection.fieldCounts, ih, Nat.add_assoc]

/-- The fragments of any ranks have no more fields than all fragments. -/
theorem Fragments.fieldsBelow_le (rank : String → Nat) (bound : Nat)
    (fragments : Entries FragmentDefinition) : fieldsBelow rank bound fragments ≤
      Selection.fieldCounts (fragments.flatMap fun entry => entry.2.selections) := by
  induction fragments with
  | nil => exact Nat.zero_le _
  | cons entry rest ih =>
    rw [fieldsBelow, List.flatMap_cons, Selection.fieldCounts_append]
    split_ifs <;> omega

/-- **Inlined selections nest no deeper than there are fields** in the selections and in all
fragments together. -/
theorem Selection.heights_inlined_le {fragments : Entries FragmentDefinition}
    (hacyclic : Fragments.Acyclic fragments) (selections : List Selection) :
    Selection.heights (Selection.inlined fragments selections) ≤
      Selection.fieldCounts
        (selections ++ fragments.flatMap fun entry => entry.2.selections) := by
  -- What stands for a spread is no higher than there are fields in the fragments below it.
  have hexpansion : ∀ name ∈ Selection.spreadsAmong selections, ∀ directives,
      (Fragments.expansion fragments name directives).height ≤
        Fragments.fieldsBelow (Fragments.rank fragments) fragments.length fragments :=
    fun name _ => Fragments.height_expansion_le hacyclic
      (Fragments.rankBelow_length hacyclic [name])
  calc Selection.heights (Selection.inlined fragments selections)
      ≤ Selection.fieldCounts selections +
          Fragments.fieldsBelow (Fragments.rank fragments) fragments.length fragments :=
        Selection.heights_replaceAmong_le selections hexpansion
    _ ≤ Selection.fieldCounts selections +
          Selection.fieldCounts (fragments.flatMap fun entry => entry.2.selections) :=
        Nat.add_le_add_left (Fragments.fieldsBelow_le _ _ _) _
    _ = _ := (Selection.fieldCounts_append _ _).symm

end GraphQL
