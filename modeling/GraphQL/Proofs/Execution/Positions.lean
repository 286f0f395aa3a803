import GraphQL.Proofs.Execution.Tree
import Mathlib.Data.List.Infix
import Mathlib.Data.List.Nodup

/-!
# Positions in a completion tree

The places of a tree are found by their paths, as the data and the errors of a response name them.
Siblings have distinct segments, so everything that a path says below a place is said by that place
alone.

* `CompletionTree.place?` — the place at a path, and `CompletionTree.subtree?` its tree;
* `CompletionTree.IsNullable`, `CompletionTree.IsExposed`, `CompletionTree.IsLongestNullable` — the
  nullable positions on the way to a failure;
* `CompletionTree.Grown` — the invariant of trees: segments fit their lists and objects, errors name
  the positions where they occur, and a place that excludes null is not null;
* `CompletionTree.mem_failures_iff` — the failures are the errors at the positions that fail.
-/

namespace GraphQL

/-! ### Segments -/

theorem Shape.Fits.nodup {shape : Shape} {segments : List PathSegment} (h : shape.Fits segments) :
    segments.Nodup := by
  cases shape with
  | list =>
    rw [h]
    exact List.nodup_range.map fun _ _ hij => PathSegment.index.inj hij
  | object =>
    obtain ⟨keys, hkeys, rfl⟩ := h
    exact hkeys.map fun _ _ hkey => PathSegment.field.inj hkey

namespace CompletionTree

/-! ### Places by their paths -/

/-- The places inside a place. -/
def places : CompletionTree → List (Place CompletionTree)
  | .branch _ places => places
  | .broken _ | .failed _ | .leaf _ => []

/-- The place of a segment. -/
def child? (tree : CompletionTree) (segment : PathSegment) : Option (Place CompletionTree) :=
  tree.places.find? fun place => place.segment == segment

/-- The place at a path. There is none at the empty one. -/
def place? (tree : CompletionTree) : ErrorPath → Option (Place CompletionTree)
  | [] => none
  | [segment] => tree.child? segment
  | segment :: next :: rest =>
      (tree.child? segment).bind fun place => place.tree.place? (next :: rest)

/-- What becomes of the place at a path, the whole tree being at the empty one. -/
def subtree? (tree : CompletionTree) : ErrorPath → Option CompletionTree
  | [] => some tree
  | segment :: rest => (tree.child? segment).bind fun place => place.tree.subtree? rest

/-- The path leads to a place that may be null. -/
def IsNullable (tree : CompletionTree) (path : ErrorPath) : Prop :=
  ∃ place, tree.place? path = some place ∧ place.nonNull = false

/-- No place on the way to the end of the path may be null. -/
def IsExposed (tree : CompletionTree) (path : ErrorPath) : Prop :=
  ∀ q, q ≠ [] → q <+: path → ¬ tree.IsNullable q

/-- The place is the last one that may be null on the way to the end of a path. -/
def IsLongestNullable (tree : CompletionTree) (q path : ErrorPath) : Prop :=
  q <+: path ∧ tree.IsNullable q ∧
    ∀ q', q' <+: path → tree.IsNullable q' → q'.length ≤ q.length

variable {tree : CompletionTree} {place : Place CompletionTree} {segment : PathSegment}
  {path rest : ErrorPath}

theorem mem_of_child? (h : tree.child? segment = some place) :
    place ∈ tree.places ∧ place.segment = segment := by
  rw [child?] at h
  have hsegment := List.find?_some h
  exact ⟨List.mem_of_find?_eq_some h, beq_iff_eq.mp hsegment⟩

theorem IsSound.child (hsound : tree.IsSound) (h : tree.child? segment = some place) :
    place.tree.IsSound := by
  obtain ⟨hmem, -⟩ := mem_of_child? h
  cases hsound with
  | branch _ hplaces => exact hplaces place hmem
  | _ => exact absurd hmem List.not_mem_nil

theorem subtree?_cons (h : tree.child? segment = some place) :
    tree.subtree? (segment :: rest) = place.tree.subtree? rest := by
  rw [subtree?, h, Option.bind_some]

theorem place?_cons (h : tree.child? segment = some place) (hrest : rest ≠ []) :
    tree.place? (segment :: rest) = place.tree.place? rest := by
  cases rest with
  | nil => exact absurd rfl hrest
  | cons next rest => rw [place?, h, Option.bind_some]

/-- Without places inside there is only the tree itself. -/
theorem subtree?_eq_some_iff {inner : CompletionTree} (h : tree.places = []) :
    tree.subtree? path = some inner ↔ path = [] ∧ inner = tree := by
  cases path with
  | nil => simp [subtree?, eq_comm]
  | cons segment rest => simp [subtree?, child?, h]

/-- The place at a path and its tree. -/
theorem subtree?_eq_map_place? (hpath : path ≠ []) :
    tree.subtree? path = (tree.place? path).map Place.tree := by
  induction path generalizing tree with
  | nil => exact absurd rfl hpath
  | cons segment rest ih =>
    rw [subtree?]
    -- A path of one segment ends at the child itself.
    cases rest with
    | nil =>
      rw [place?]
      cases tree.child? segment <;> rfl
    -- A longer path goes on inside of the child.
    | cons next rest =>
      rw [place?]
      cases tree.child? segment with
      | none => rfl
      | some place => exact ih (List.cons_ne_nil next rest)

/-- A path of a place starts with a child. -/
theorem exists_child_of_place? (h : tree.place? (segment :: rest) = some place) :
    ∃ child, tree.child? segment = some child := by
  cases hchild : tree.child? segment with
  | some child => exact ⟨child, rfl⟩
  | none =>
    cases rest with
    | nil => rw [place?, hchild] at h; exact absurd h (by simp)
    | cons next rest => rw [place?, hchild] at h; exact absurd h (by simp)

/-! ### Nullable places on a path -/

theorem not_isNullable_nil : ¬ tree.IsNullable [] := by
  rintro ⟨place, hplace, -⟩
  exact absurd hplace (by simp [place?])

/-- A child and what is inside of it. -/
theorem isNullable_cons (h : tree.child? segment = some place) :
    tree.IsNullable (segment :: rest) ↔
      (rest = [] ∧ place.nonNull = false) ∨ place.tree.IsNullable rest := by
  cases rest with
  | nil =>
    refine ⟨fun ⟨found, hfound, hnull⟩ => ?_, fun hor => ?_⟩
    · rw [place?, h] at hfound
      obtain rfl := Option.some.inj hfound
      exact .inl ⟨rfl, hnull⟩
    · rcases hor with ⟨-, hnull⟩ | hinner
      · exact ⟨place, by rw [place?, h], hnull⟩
      · exact absurd hinner not_isNullable_nil
  | cons next rest =>
    -- The path goes on, so its place is one inside the child.
    rw [IsNullable, place?_cons h (List.cons_ne_nil next rest)]
    exact ⟨.inr, fun hor => hor.resolve_left fun hnil => absurd hnil.1 (List.cons_ne_nil next rest)⟩

theorem isExposed_nil : tree.IsExposed [] :=
  fun _ hq hinit => absurd (List.prefix_nil.mp hinit) hq

/-- A failure inside a child is exposed if the child must not be null and the failure is exposed
inside of it. -/
theorem isExposed_cons (h : tree.child? segment = some place) :
    tree.IsExposed (segment :: rest) ↔ place.nonNull = true ∧ place.tree.IsExposed rest := by
  constructor
  · intro hexposed
    refine ⟨?_, fun q hq hinit hnull => ?_⟩
    · -- The child itself is a place on the way.
      have hfirst := hexposed [segment] (List.cons_ne_nil _ _) ⟨rest, rfl⟩
      rw [isNullable_cons h] at hfirst
      push Not at hfirst
      exact Bool.of_not_eq_false (hfirst.1 rfl)
    · -- A nullable place inside the child is nullable in the whole tree.
      refine hexposed (segment :: q) (List.cons_ne_nil _ _) ?_ ?_
      · exact List.prefix_cons_inj segment |>.mpr hinit
      · exact (isNullable_cons h).mpr (.inr hnull)
  · rintro ⟨hnonNull, hinner⟩ q hq hinit
    cases q with
    | nil => exact absurd rfl hq
    | cons first q =>
      obtain ⟨rfl, hinside⟩ := List.cons_prefix_cons.mp hinit
      rw [isNullable_cons h]
      rintro (⟨-, hnull⟩ | hnull)
      · rw [hnonNull] at hnull
        exact absurd hnull (by simp)
      -- A nullable place inside of the child would be one on the way to the failure.
      · have hne : q ≠ [] := fun hnil => not_isNullable_nil (hnil ▸ hnull)
        exact hinner q hne hinside hnull

/-- A child is the last nullable place on a path if what follows is exposed inside of it. -/
theorem isLongestNullable_singleton (h : tree.child? segment = some place) :
    tree.IsLongestNullable [segment] (segment :: rest) ↔
      place.nonNull = false ∧ place.tree.IsExposed rest := by
  constructor
  · rintro ⟨-, hnull, hlongest⟩
    refine ⟨?_, fun q hq hinit hinner => ?_⟩
    · rcases (isNullable_cons h).mp hnull with ⟨-, hnull⟩ | hinner
      · exact hnull
      · exact absurd hinner not_isNullable_nil
    · -- A nullable place inside the child would be further on than the child.
      have hlength := hlongest (segment :: q) (List.prefix_cons_inj segment |>.mpr hinit)
        ((isNullable_cons h).mpr (.inr hinner))
      have hpos := List.length_pos_iff.mpr hq
      simp only [List.length_cons, List.length_nil] at hlength
      omega
  · rintro ⟨hnull, hinner⟩
    -- Nothing further on is nullable, so that the child is the last place that is.
    refine ⟨⟨rest, rfl⟩, (isNullable_cons h).mpr (.inl ⟨rfl, hnull⟩), fun q hinit hq => ?_⟩
    cases q with
    | nil => exact absurd hq not_isNullable_nil
    | cons first q =>
      obtain ⟨rfl, hinside⟩ := List.cons_prefix_cons.mp hinit
      rcases (isNullable_cons h).mp hq with ⟨rfl, -⟩ | hq
      · exact le_rfl
      · have hne : q ≠ [] := fun hnil => not_isNullable_nil (hnil ▸ hq)
        exact absurd hq (hinner q hne hinside)

/-- Inside a child the last nullable place is found from the child on. What may be null beyond the
child is decided inside of it, and every path that is compared begins with its segment, which may
therefore be dropped. -/
theorem isLongestNullable_cons (h : tree.child? segment = some place) {q : ErrorPath}
    (hq : q ≠ []) :
    tree.IsLongestNullable (segment :: q) (segment :: rest) ↔
      place.tree.IsLongestNullable q rest := by
  -- Beyond the child itself it is decided inside of it which places may be null.
  have hnullable : ∀ q', q' ≠ [] →
      (tree.IsNullable (segment :: q') ↔ place.tree.IsNullable q') := by
    intro q' hq'
    rw [isNullable_cons h]
    exact ⟨fun hor => hor.resolve_left fun hnil => hq' hnil.1, .inr⟩
  constructor
  -- What holds on the way inside holds on the whole way, which is one segment longer.
  · rintro ⟨hinit, hnull, hlongest⟩
    refine ⟨List.prefix_cons_inj segment |>.mp hinit, (hnullable q hq).mp hnull, ?_⟩
    intro q' hinit' hnull'
    have hne : q' ≠ [] := fun hnil => not_isNullable_nil (hnil ▸ hnull')
    exact Nat.le_of_succ_le_succ (hlongest (segment :: q')
      (List.prefix_cons_inj segment |>.mpr hinit') ((hnullable q' hne).mpr hnull'))
  · rintro ⟨hinit, hnull, hlongest⟩
    refine ⟨List.prefix_cons_inj segment |>.mpr hinit, (hnullable q hq).mpr hnull, ?_⟩
    intro q' hinit' hnull'
    cases q' with
    | nil => exact Nat.zero_le _
    | cons first q' =>
      obtain ⟨rfl, hinside⟩ := List.cons_prefix_cons.mp hinit'
      by_cases hnil : q' = []
      · -- The child comes before everything inside of it.
        rw [hnil]
        exact Nat.succ_le_succ (Nat.zero_le _)
      · exact Nat.succ_le_succ (hlongest q' hinside ((hnullable q' hnil).mp hnull'))

/-! ### Well-formed trees -/

/-- The invariant of the tree of a place at a path: siblings have the segments of a list or an
object, a place that excludes null is not null, and errors name the position where they occur. -/
inductive Grown : ErrorPath → CompletionTree → Prop
  | broken (path : ErrorPath) (why : Abort) : Grown path (.broken why)
  | failed {path : ErrorPath} {error : GraphQLError} (h : error.path = some path) :
      Grown path (.failed error)
  | leaf (path : ErrorPath) (value : Value) : Grown path (.leaf value)
  | branch {path : ErrorPath} {shape : Shape} {places : List (Place CompletionTree)}
      (hfits : shape.Fits (places.map Place.segment))
      (hnull : ∀ place ∈ places, place.nonNull = true → place.tree ≠ .leaf .null)
      (h : ∀ place ∈ places, Grown (path ++ [place.segment]) place.tree) :
      Grown path (.branch shape places)

namespace Grown

variable {base : ErrorPath}

private theorem find?_segment_of_mem {places : List (Place CompletionTree)}
    (hnodup : (places.map Place.segment).Nodup) (hmem : place ∈ places) :
    (places.find? fun other => other.segment == place.segment) = some place := by
  induction places with
  | nil => exact absurd hmem List.not_mem_nil
  | cons first rest ih =>
    rw [List.map_cons, List.nodup_cons] at hnodup
    rcases List.mem_cons.mp hmem with rfl | hrest
    -- The place asked for is the first one.
    · exact List.find?_cons_of_pos (beq_self_eq_true _)
    · -- Another place with the same segment would be in the rest as well.
      have hne : ¬ (first.segment == place.segment) = true := fun heq =>
        hnodup.1 (beq_iff_eq.mp heq ▸ List.mem_map_of_mem hrest)
      rw [List.find?_cons, Bool.of_not_eq_true hne]
      exact ih hnodup.2 hrest

/-- Every place inside is found under its segment. -/
theorem child?_of_mem (h : Grown base tree) (hmem : place ∈ tree.places) :
    tree.child? place.segment = some place := by
  cases h with
  | branch hfits _ _ =>
    exact find?_segment_of_mem hfits.nodup hmem
  | _ => exact absurd hmem List.not_mem_nil

/-- A child is grown one segment further down. -/
theorem child (h : Grown base tree) (hchild : tree.child? segment = some place) :
    Grown (base ++ [segment]) place.tree := by
  obtain ⟨hmem, rfl⟩ := mem_of_child? hchild
  cases h with
  | branch _ _ h => exact h place hmem
  | _ => exact absurd hmem List.not_mem_nil

/-- A child that excludes null is not null. -/
theorem child_ne_null (h : Grown base tree) (hchild : tree.child? segment = some place)
    (hnonNull : place.nonNull = true) : place.tree ≠ .leaf .null := by
  obtain ⟨hmem, -⟩ := mem_of_child? hchild
  cases h with
  | branch _ hnull _ => exact hnull place hmem hnonNull
  | _ => exact absurd hmem List.not_mem_nil

/-- **Errors name their positions.** The induction is on the path. -/
theorem error_path {error : GraphQLError} (h : Grown base tree)
    (hfails : tree.subtree? path = some (.failed error)) : error.path = some (base ++ path) := by
  induction path generalizing base tree with
  | nil =>
    obtain rfl := Option.some.inj hfails
    cases h with
    | failed h => rw [h, List.append_nil]
  | cons segment rest ih =>
    rw [subtree?, Option.bind_eq_some_iff] at hfails
    obtain ⟨place, hchild, hfails⟩ := hfails
    rw [ih (h.child hchild) hfails, List.append_assoc, List.singleton_append]

end Grown

/-- **The failures of a tree are the errors at the positions that fail.** The induction is on the
tree. The places of a branch have distinct segments, so a position leads into exactly one of them,
and the branch itself is no failure. -/
theorem mem_failures_iff {base : ErrorPath} {error : GraphQLError} (h : Grown base tree) :
    error ∈ tree.failures ↔ ∃ path, tree.subtree? path = some (.failed error) := by
  induction tree generalizing base with
  | broken why =>
    have hnone : (broken why).places = [] := rfl
    simp [failures, subtree?_eq_some_iff hnone]
  | failed error' =>
    have hnone : (failed error').places = [] := rfl
    simp [failures, subtree?_eq_some_iff hnone]
  | leaf value =>
    have hnone : (leaf value).places = [] := rfl
    simp [failures, subtree?_eq_some_iff hnone]
  | branch shape places ih =>
    rw [failures, failuresAmong_eq_flatMap, List.mem_flatMap]
    constructor
    -- A failure is in one of the places, where its position is known by the induction hypothesis.
    · rintro ⟨place, hmem, herror⟩
      have hchild := h.child?_of_mem hmem
      obtain ⟨path, hpath⟩ := (ih place hmem (h.child hchild)).mp herror
      exact ⟨place.segment :: path, by rw [subtree?_cons hchild, hpath]⟩
    · rintro ⟨path, hpath⟩
      cases path with
      -- A branch is no failure itself.
      | nil => exact absurd hpath (by simp [subtree?])
      | cons segment rest =>
        rw [subtree?, Option.bind_eq_some_iff] at hpath
        obtain ⟨place, hchild, hpath⟩ := hpath
        obtain ⟨hmem, -⟩ := mem_of_child? hchild
        exact ⟨place, hmem, (ih place hmem (h.child hchild)).mpr ⟨rest, hpath⟩⟩

end CompletionTree

end GraphQL
