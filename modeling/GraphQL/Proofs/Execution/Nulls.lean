import GraphQL.Proofs.Entries
import GraphQL.Proofs.Execution.Positions

/-!
# Where the value of a tree is null

A failure makes the nearest place around it null that may be null, and nothing else is null but what
has the value null to begin with. Both directions are stated by positions:

* `completed_error_iff` — a tree leaves an error exactly if one of its failures is exposed: no place
  on the way to it may be null;
* `exists_value_of_place?` — where no place further out is null, the value at a position is null
  exactly if the place may be null and either is the null leaf or is the last place on the way to
  some failure that may be null.

Each is one induction: over the tree, and along the path.
-/

namespace GraphQL

/-! ### Values at segments -/

/-- The value under a segment is found by it. In a list an entry stands at its index; in an object
keys are distinct, so that looking a key up finds the entry that has it and no earlier one. -/
theorem Shape.at?_value {shape : Shape} {entries : List (PathSegment × Value)}
    {segment : PathSegment} {value : Value} (hfits : shape.Fits (entries.map Prod.fst))
    (hmem : (segment, value) ∈ entries) (rest : ErrorPath) :
    (shape.value entries).at? (segment :: rest) = value.at? rest := by
  cases shape with
  | list =>
    -- The entry at an index has that index for its segment.
    obtain ⟨i, hget⟩ := List.mem_iff_getElem?.mp hmem
    have hsegment : (entries.map Prod.fst)[i]? = some segment := by
      rw [List.getElem?_map, hget]
      rfl
    rw [hfits, List.getElem?_map, Option.map_eq_some_iff] at hsegment
    obtain ⟨k, hk, rfl⟩ := hsegment
    obtain ⟨hlt, rfl⟩ := List.getElem?_eq_some_iff.mp hk
    rw [List.getElem_range, Shape.value, Value.at?, List.getElem?_map, hget]
    rfl
  | object =>
    -- The keys are distinct, so looking one up finds its own entry.
    obtain ⟨keys, hnodup, hkeys⟩ := hfits
    have htexts : Entries.keys (entries.map fun entry => (entry.1.text, entry.2)) = keys := by
      have htext : (entries.map Prod.fst).map PathSegment.text = keys := by
        rw [hkeys, List.map_map]
        exact List.map_id' keys
      rw [← htext, Entries.keys, List.map_map, List.map_map]
      rfl
    obtain ⟨key, -, rfl⟩ : ∃ key ∈ keys, PathSegment.field key = segment :=
      List.mem_map.mp (hkeys ▸ List.mem_map_of_mem hmem)
    have hvalue : (key, value) ∈ entries.map fun entry => (entry.1.text, entry.2) :=
      List.mem_map.mpr ⟨_, hmem, rfl⟩
    rw [Shape.value, Value.at?, Entries.get?_of_mem (htexts ▸ hnodup) hvalue]
    rfl

namespace CompletionTree

variable {tree : CompletionTree} {place : Place CompletionTree} {base : ErrorPath}

/-! ### Errors that are left -/

/-- Some places leave an error exactly if one of them does. -/
theorem completedPlaces_error_iff {places : List (Place CompletionTree)} :
    (∃ error, completedPlaces places = .error error) ↔
      ∃ place ∈ places, ∃ error, place.completed = .error error := by
  induction places with
  | nil => simp [completedPlaces]
  | cons place rest ih =>
    rw [completedPlaces_cons, List.exists_mem_cons_iff, ← ih]
    cases hplace : place.completed with
    | error error => simp
    | ok value => cases completedPlaces rest <;> simp [Except.map]

/-- **A tree leaves an error exactly if a failure is exposed in it.** The induction is on the tree;
inside a branch the failure is that of a child which must not be null. -/
theorem completed_error_iff (h : Grown base tree) :
    (∃ error, tree.completed = .error error) ↔
      ∃ path error, tree.subtree? path = some (.failed error) ∧ tree.IsExposed path := by
  induction tree generalizing base with
  | broken why =>
    have hnone : (broken why).places = [] := rfl
    simp [completed, subtree?_eq_some_iff hnone]
  | failed error =>
    exact ⟨fun _ => ⟨[], error, rfl, isExposed_nil⟩, fun _ => ⟨error, rfl⟩⟩
  | leaf value =>
    have hnone : (leaf value).places = [] := rfl
    simp [completed, subtree?_eq_some_iff hnone]
  | branch shape places ih =>
    -- The error of a branch is that of one of its places.
    have hcompleted : (∃ error, (branch shape places).completed = .error error) ↔
        ∃ error, completedPlaces places = .error error := by
      rw [completed]
      cases completedPlaces places <;> simp [Except.map]
    rw [hcompleted, completedPlaces_error_iff]
    constructor
    · rintro ⟨place, hmem, herror⟩
      -- The place passes the error of its tree on, so it must not be null itself.
      obtain ⟨hnonNull, herror⟩ := Place.completed_error_iff.mp herror
      have hchild := h.child?_of_mem hmem
      obtain ⟨path, error, hfails, hexposed⟩ := (ih place hmem (h.child hchild)).mp herror
      exact ⟨place.segment :: path, error, by rw [subtree?_cons hchild, hfails],
        (isExposed_cons hchild).mpr ⟨hnonNull, hexposed⟩⟩
    -- The failure is inside of a place that passes it on.
    · rintro ⟨path, error, hfails, hexposed⟩
      cases path with
      | nil => exact absurd hfails (by simp [subtree?])
      | cons segment rest =>
        rw [subtree?, Option.bind_eq_some_iff] at hfails
        obtain ⟨place, hchild, hfails⟩ := hfails
        obtain ⟨hnonNull, hexposed⟩ := (isExposed_cons hchild).mp hexposed
        obtain ⟨hmem, -⟩ := mem_of_child? hchild
        exact ⟨place, hmem, Place.completed_error_iff.mpr ⟨hnonNull,
          (ih place hmem (h.child hchild)).mpr ⟨rest, error, hfails, hexposed⟩⟩⟩

/-! ### Values that are null -/

variable {data : Value} {segment : PathSegment}

/-- The value of a child is found by its segment. -/
theorem exists_value_of_child? (h : Grown base tree) (hdata : tree.completed = .ok data)
    (hchild : tree.child? segment = some place) :
    ∃ value, place.completed = .ok value ∧
      ∀ rest, data.at? (segment :: rest) = value.at? rest := by
  obtain ⟨hmem, rfl⟩ := mem_of_child? hchild
  cases h with
  | @branch _ shape places hfits _ _ =>
    obtain ⟨entries, hentries, rfl⟩ := exists_entries_of_completed hdata
    -- Each place has one entry, and the entries fit the shape.
    have hplaces := forall₂_of_completedPlaces hentries
    obtain ⟨value, hvalue, hcompleted⟩ := exists_mem_of_completesTo hplaces hmem
    refine ⟨value, hcompleted, Shape.at?_value ?_ hvalue⟩
    rw [map_fst_of_completesTo hplaces]
    exact hfits
  | _ => exact absurd hmem List.not_mem_nil

/-- A place is null if it may be and its tree is null or leaves an error. -/
theorem null_iff_of_completed {value : Value} (hsound : place.tree.IsSound)
    (hnull : place.nonNull = true → place.tree ≠ .leaf .null) (h : place.completed = .ok value) :
    value = .null ↔ place.nonNull = false ∧
      (place.tree = .leaf .null ∨ ∃ error, place.tree.completed = .error error) := by
  rcases Place.completed_eq_ok h with htree | ⟨hnonNull, rfl, herror⟩
  · -- The value is that of the tree, so there is no error.
    refine ⟨fun hvalue => ?_, fun ⟨_, hor⟩ => ?_⟩
    · have hleaf := eq_leaf_null_of_completed hsound (hvalue ▸ htree)
      exact ⟨Bool.of_not_eq_true fun hnonNull => hnull hnonNull hleaf, .inl hleaf⟩
    · rcases hor with hleaf | ⟨error, herror⟩
      · rw [hleaf] at htree
        exact (Except.ok.inj htree).symm
      · rw [herror] at htree
        exact absurd htree (by simp)
  · -- The value is null in place of an error.
    exact ⟨fun _ => ⟨hnonNull, .inr herror⟩, fun _ => rfl⟩

/-- The failures on the far side of a child are those of the child. -/
theorem exists_failure_cons_iff (hchild : tree.child? segment = some place)
    {Q : ErrorPath → Prop} {q : ErrorPath} (hQ : ∀ path, Q path → (segment :: q) <+: path) :
    (∃ path error, tree.subtree? path = some (.failed error) ∧ Q path) ↔
      ∃ path error, place.tree.subtree? path = some (.failed error) ∧ Q (segment :: path) := by
  constructor
  · rintro ⟨path, error, hfails, hpath⟩
    cases path with
    | nil => exact absurd (List.prefix_nil.mp (hQ [] hpath)) (List.cons_ne_nil segment q)
    | cons first path =>
      obtain ⟨rfl, -⟩ := List.cons_prefix_cons.mp (hQ _ hpath)
      exact ⟨path, error, by rwa [subtree?_cons hchild] at hfails, hpath⟩
  · rintro ⟨path, error, hfails, hpath⟩
    exact ⟨segment :: path, error, by rwa [subtree?_cons hchild], hpath⟩

/-- **What is null in the value of a tree.** The induction is on the path: at its end the value is
null in place of an error or by itself, and further out nothing is. -/
theorem exists_value_of_place? {q : ErrorPath} (h : Grown base tree) (hsound : tree.IsSound)
    (hdata : tree.completed = .ok data) (hplace : tree.place? q = some place)
    (hopen : ∀ p, p <+: q → p ≠ q → data.at? p ≠ some .null) :
    ∃ value, data.at? q = some value ∧
      (value = .null ↔ place.nonNull = false ∧ (place.tree = .leaf .null ∨
        ∃ path error, tree.subtree? path = some (.failed error) ∧
          tree.IsLongestNullable q path)) := by
  induction q generalizing tree data base with
  | nil => exact absurd hplace (by simp [place?])
  | cons segment rest ih =>
    obtain ⟨child, hchild⟩ := exists_child_of_place? hplace
    obtain ⟨value, hvalue, hat⟩ := exists_value_of_child? h hdata hchild
    have hinner := h.child hchild
    have hsoundChild := hsound.child hchild
    rw [exists_failure_cons_iff hchild fun path hpath => hpath.1]
    cases rest with
    | nil =>
      -- The path ends at the child: an error of its tree is absorbed here or nowhere.
      rw [place?, hchild] at hplace
      obtain rfl := Option.some.inj hplace
      refine ⟨value, by rw [hat, Value.at?], ?_⟩
      rw [null_iff_of_completed hsoundChild (h.child_ne_null hchild) hvalue,
        completed_error_iff hinner]
      refine and_congr_right fun hnull => or_congr_right ?_
      simp only [isLongestNullable_singleton hchild, hnull, true_and]
    | cons next rest =>
      rw [place?_cons hchild (List.cons_ne_nil next rest)] at hplace
      -- The child is further out, so it is not null and its value is that of its tree.
      have hvalueNull : value ≠ .null := by
        have hfirst := hopen [segment] ⟨next :: rest, rfl⟩ (by simp)
        rw [hat, Value.at?] at hfirst
        exact fun hnull => hfirst (congrArg some hnull)
      have hcompleted : child.tree.completed = .ok value := by
        rcases Place.completed_eq_ok hvalue with hcompleted | ⟨-, hnull, -⟩
        · exact hcompleted
        · exact absurd hnull hvalueNull
      obtain ⟨found, hfound, hiff⟩ := ih hinner hsoundChild hcompleted hplace fun p hp hne => by
        rw [← hat]
        exact hopen (segment :: p) (List.prefix_cons_inj segment |>.mpr hp)
          fun heq => hne (List.cons.inj heq).2
      refine ⟨found, by rw [hat, hfound], hiff.trans ?_⟩
      simp only [isLongestNullable_cons hchild (List.cons_ne_nil next rest)]

end CompletionTree

end GraphQL
