import GraphQL.Proofs.Document.Inlining
import GraphQL.Proofs.Entries
import Mathlib.Data.List.Flatten

/-!
# Fragments that selections reach

What selections amount to depends on the fragments that they spread, directly or through others, and
on no other ones of the document. So if none of these spreads itself, the selections can be written
out, whatever the remaining fragments do to each other.

The table of the fragments that are reached has no circles, and what stands for their spreads is the
same in it as in the whole table. That carries the results about tables without circles over.

* `Fragments.ReachedFrom`, `Fragments.AcyclicFrom` — the fragments that selections reach, and that none
  of them spreads itself;
* `Fragments.expansion_eq_of_reachedFrom` — what stands for a spread of one of them;
* `Selection.heights_inlined_le_of_acyclicFrom` — how deep the fields of the selections nest.
-/

namespace GraphQL

namespace Fragments

variable {fragments : Entries FragmentDefinition} {name other : String} {fragment : FragmentDefinition}
  {selections below : List Selection}

/-- The selections spread the fragment of a name, directly or through others. -/
def ReachedFrom (fragments : Entries FragmentDefinition) (selections : List Selection) (name : String) :
    Prop :=
  ∃ first ∈ Selection.spreadsAmong selections, Relation.ReflTransGen (Spreads fragments) first name

/-- No fragment that the selections reach spreads itself, directly or through others. -/
def AcyclicFrom (fragments : Entries FragmentDefinition) (selections : List Selection) : Prop :=
  ∀ name, ReachedFrom fragments selections name → ¬ Relation.TransGen (Spreads fragments) name name

/-- All known fragments that some selections spread are reached from others. -/
def SpreadsReached (fragments : Entries FragmentDefinition) (selections below : List Selection) : Prop :=
  ∀ name ∈ Selection.spreadsAmong below, ∀ fragment, Entries.get? fragments name = some fragment →
    ReachedFrom fragments selections name

theorem spreadsReached_self (fragments : Entries FragmentDefinition) (selections : List Selection) :
    SpreadsReached fragments selections selections :=
  fun name hmem _ _ => ⟨name, hmem, .refl⟩

/-- What a fragment spreads is reached from where the fragment is. -/
theorem ReachedFrom.spreadsReached (h : ReachedFrom fragments selections name)
    (hget : Entries.get? fragments name = some fragment) :
    SpreadsReached fragments selections fragment.selections := by
  intro other hspread definition hother
  obtain ⟨first, hfirst, hpath⟩ := h
  exact ⟨first, hfirst, hpath.tail ⟨fragment, hget, hspread, hother ▸ rfl⟩⟩

/-- What is reached from selections whose spreads are reached is reached itself. -/
theorem ReachedFrom.trans (h : ReachedFrom fragments below name)
    (hspreads : SpreadsReached fragments selections below) :
    ReachedFrom fragments selections name ∨ Entries.get? fragments name = none := by
  obtain ⟨first, hfirst, hpath⟩ := h
  cases hget : Entries.get? fragments first with
  | some fragment =>
    obtain ⟨start, hstart, hto⟩ := hspreads first hfirst fragment hget
    exact .inl ⟨start, hstart, hto.trans hpath⟩
  | none =>
    -- An unknown fragment spreads nothing, so the path ends where it starts.
    rcases hpath.cases_head with rfl | ⟨_, ⟨_, hsome, _⟩, _⟩
    · exact .inr hget
    · exact absurd (hget.symm.trans hsome) (by simp)

/-- A fragment that spreads itself is known. -/
theorem exists_fragment_of_transGen (h : Relation.TransGen (Spreads fragments) name other) :
    ∃ fragment, Entries.get? fragments name = some fragment := by
  obtain ⟨_, ⟨fragment, hget, _⟩, _⟩ := Relation.TransGen.head'_iff.mp h
  exact ⟨fragment, hget⟩

/-- Selections whose spreads are reached inherit that no fragment spreads itself. -/
theorem AcyclicFrom.of_spreadsReached (h : AcyclicFrom fragments selections)
    (hspreads : SpreadsReached fragments selections below) : AcyclicFrom fragments below := by
  intro name hreached hcircle
  rcases hreached.trans hspreads with hreached | hunknown
  · exact h name hreached hcircle
  · obtain ⟨fragment, hget⟩ := exists_fragment_of_transGen hcircle
    exact absurd (hunknown.symm.trans hget) (by simp)

/-! ### The table of what is reached -/

open Classical in
/-- The fragments that selections reach. -/
noncomputable def reached (fragments : Entries FragmentDefinition) (selections : List Selection) :
    Entries FragmentDefinition :=
  fragments.filter fun entry => decide (ReachedFrom fragments selections entry.1)

open Classical in
theorem get?_reached (h : ReachedFrom fragments selections name) :
    Entries.get? (reached fragments selections) name = Entries.get? fragments name :=
  let keep (name : String) : Bool := decide (ReachedFrom fragments selections name)
  have hkeep : keep name = true := decide_eq_true h
  Entries.get?_filter_of_pos hkeep fragments

open Classical in
theorem get?_of_reached (h : Entries.get? (reached fragments selections) name = some fragment) :
    ReachedFrom fragments selections name ∧ Entries.get? fragments name = some fragment := by
  have hreached : ReachedFrom fragments selections name :=
    of_decide_eq_true (List.mem_filter.mp (Entries.get?_mem h)).2
  exact ⟨hreached, (get?_reached hreached).symm.trans h⟩

/-- What is unknown is not reached either. -/
theorem get?_reached_eq_none (h : Entries.get? fragments name = none) :
    Entries.get? (reached fragments selections) name = none := by
  refine Option.eq_none_iff_forall_ne_some.mpr fun definition hsome => ?_
  exact absurd (h.symm.trans (get?_of_reached hsome).2) (by simp)

theorem Spreads.of_reached (h : Spreads (reached fragments selections) name other) :
    ReachedFrom fragments selections name ∧ Spreads fragments name other := by
  obtain ⟨fragment, hget, hspread, hknown⟩ := h
  obtain ⟨definition, hother⟩ := Option.isSome_iff_exists.mp hknown
  obtain ⟨hreached, hname⟩ := get?_of_reached hget
  exact ⟨hreached, fragment, hname, hspread, (get?_of_reached hother).2 ▸ rfl⟩

/-- **The table of what is reached has no circles.** -/
theorem AcyclicFrom.acyclic_reached (h : AcyclicFrom fragments selections) :
    Acyclic (reached fragments selections) := by
  intro name hcircle
  obtain ⟨_, hfirst, _⟩ := Relation.TransGen.head'_iff.mp hcircle
  exact h name hfirst.of_reached.1
    (Relation.TransGen.mono (fun _ _ (hspread : Spreads (reached fragments selections) _ _) =>
      hspread.of_reached.2) _ _ hcircle)

theorem expandWithin_unknown (hget : Entries.get? fragments name = none) (depth : Nat)
    (directives : List Directive) :
    expandWithin fragments depth name directives = .inline none [] [] := by
  cases depth with
  | zero => rfl
  | succ depth => rw [expandWithin, hget]

/-- To any depth a spread is written out in the same way. The induction is on the depth. -/
theorem expandWithin_reached (h : ReachedFrom fragments selections name) (depth : Nat) :
    expandWithin (reached fragments selections) depth name = expandWithin fragments depth name := by
  induction depth generalizing name with
  | zero => rfl
  | succ depth ih =>
    funext directives
    rw [expandWithin, expandWithin, get?_reached h]
    cases hget : Entries.get? fragments name with
    | none => rfl
    -- What the fragment spreads is reached as well, or unknown in both.
    | some fragment =>
      have hselections : Selection.replaceAmong (expandWithin (reached fragments selections) depth)
            fragment.selections =
          Selection.replaceAmong (expandWithin fragments depth) fragment.selections := by
        refine Selection.replaceAmong_congr _ fun other hspread => ?_
        cases hother : Entries.get? fragments other with
        | some definition => exact ih (h.spreadsReached hget other hspread definition hother)
        | none =>
          funext directives
          rw [expandWithin_unknown (get?_reached_eq_none hother), expandWithin_unknown hother]
      simp only [hselections]

/-- What stands for a spread is the same: in either table there is room to write it out. -/
theorem expansion_reached (hacyclic : AcyclicFrom fragments selections)
    (h : ReachedFrom fragments selections name) :
    expansion (reached fragments selections) name = expansion fragments name := by
  have hfewer : (reached fragments selections).length ≤ fragments.length := List.length_filter_le _ _
  rw [expansion, expansion, ← expandWithin_reached h]
  exact expandWithin_eq hacyclic.acyclic_reached _ (Nat.le_refl _) hfewer
    (rankBelow_length hacyclic.acyclic_reached [name])

/-- Selections whose spreads are reached are written out in the same way. -/
theorem inlined_reached (hacyclic : AcyclicFrom fragments selections)
    (hspreads : SpreadsReached fragments selections below) :
    Selection.inlined (reached fragments selections) below = Selection.inlined fragments below := by
  refine Selection.replaceAmong_congr _ fun name hspread => ?_
  cases hget : Entries.get? fragments name with
  | some fragment => exact expansion_reached hacyclic (hspreads name hspread fragment hget)
  | none =>
    funext directives
    rw [expansion_unknown (get?_reached_eq_none hget), expansion_unknown hget]

/-- **What stands for a spread that is reached** is an inline fragment with the selections of the named
one, themselves written out. -/
theorem expansion_eq_of_reachedFrom (hacyclic : AcyclicFrom fragments selections)
    (h : ReachedFrom fragments selections name) (hget : Entries.get? fragments name = some fragment)
    (directives : List Directive) :
    expansion fragments name directives =
      .inline (some fragment.condition) directives
        (Selection.inlined fragments fragment.selections) := by
  rw [← expansion_reached hacyclic h, ← inlined_reached hacyclic (h.spreadsReached hget)]
  exact expansion_eq hacyclic.acyclic_reached ((get?_reached h).trans hget) directives

end Fragments

theorem Selection.fieldCounts_le_of_sublist {selections others : List Selection}
    (h : selections.Sublist others) :
    Selection.fieldCounts selections ≤ Selection.fieldCounts others := by
  induction h with
  | slnil => exact Nat.le_refl _
  | cons selection _ ih =>
    rw [Selection.fieldCounts]
    omega
  | cons_cons selection _ ih =>
    rw [Selection.fieldCounts, Selection.fieldCounts]
    omega

/-- **Selections nest no deeper than there are fields** in them and in the fragments. -/
theorem Selection.heights_inlined_le_of_acyclicFrom {fragments : Entries FragmentDefinition}
    {selections : List Selection} (hacyclic : Fragments.AcyclicFrom fragments selections) :
    Selection.heights (Selection.inlined fragments selections) ≤
      Selection.fieldCounts (selections ++ fragments.flatMap fun entry => entry.2.selections) := by
  -- The fragments that are reached are some of all fragments, in the same order.
  have hsublist : ((Fragments.reached fragments selections).flatMap fun entry =>
      entry.2.selections).Sublist (fragments.flatMap fun entry => entry.2.selections) :=
    List.Sublist.flatMap List.filter_sublist _
  rw [← Fragments.inlined_reached hacyclic (Fragments.spreadsReached_self fragments selections)]
  calc Selection.heights (Selection.inlined (Fragments.reached fragments selections) selections)
      ≤ Selection.fieldCounts (selections ++
          (Fragments.reached fragments selections).flatMap fun entry => entry.2.selections) :=
        Selection.heights_inlined_le hacyclic.acyclic_reached selections
    _ ≤ Selection.fieldCounts (selections ++ fragments.flatMap fun entry => entry.2.selections) :=
        Selection.fieldCounts_le_of_sublist ((List.Sublist.refl _).append hsublist)

end GraphQL
