import GraphQL.Proofs.Document.PlainFields
import GraphQL.Proofs.Execution.ErrorConservation
import GraphQL.Proofs.Execution.GrownTrees
import GraphQL.Proofs.Execution.RecordedOrder

/-!
# Errors in document order

The errors of an execution in which nothing is waited for are in the order in which they are recorded.
That is not document order: an error that is left to the place around it is recorded after everything
that its later siblings record.

* `CompletionTree.Precedes` — document order of paths: where two paths part, the first one goes to the
  key that is collected first or to the smaller index;
* `CompletionTree.IsOrderly` — no error is left past a place that has errors of its own;
* `errors_in_document_order_iff` — errors are in document order exactly if the tree is orderly;
* `errors_out_of_order` — and not every tree is.
-/

open scoped List

namespace GraphQL

namespace CompletionTree

/-! ### Document order -/

/-- The first path leads to an earlier place of the tree than the second one. -/
inductive Precedes : CompletionTree → ErrorPath → ErrorPath → Prop
  /-- Here the paths part. -/
  | parted {shape : Shape} {places : List (Place CompletionTree)} {first second : Place CompletionTree}
      (p q : ErrorPath) (h : [first, second] <+ places) :
      Precedes (.branch shape places) (first.segment :: p) (second.segment :: q)
  /-- The paths part inside of a place. -/
  | inside {shape : Shape} {places : List (Place CompletionTree)} {place : Place CompletionTree}
      {p q : ErrorPath} (hmem : place ∈ places) (h : Precedes place.tree p q) :
      Precedes (.branch shape places) (place.segment :: p) (place.segment :: q)

/-- The first error is at an earlier place than the second one, in the tree of the place at the given
path. -/
def ErrorPrecedes (base : ErrorPath) (tree : CompletionTree) (first second : GraphQLError) : Prop :=
  ∃ p q, first.path = some (base ++ p) ∧ second.path = some (base ++ q) ∧ tree.Precedes p q

/-- Members of a list without duplicates are in one order only. -/
theorem not_sublist_swap {α : Type} {l : List α} {a b : α} (hnodup : l.Nodup) (h : [a, b] <+ l) :
    ¬ [b, a] <+ l := by
  induction l with
  | nil => exact absurd h (by simp)
  | cons c l ih =>
    -- The first member occurs once, so that it cannot stand behind in one of the pairs and in front
    -- in the other.
    obtain ⟨hc, hl⟩ := List.nodup_cons.mp hnodup
    intro hswap
    cases h with
    | cons _ hin =>
      cases hswap with
      | cons _ hin' => exact ih hl hin hin'
      | cons_cons _ _ => exact hc (hin.subset (by simp))
    | cons_cons _ hin =>
      cases hswap with
      | cons _ hin' => exact hc (hin'.subset (by simp))
      | cons_cons _ _ => exact hc (List.singleton_sublist.mp hin)

variable {shape : Shape} {places : List (Place CompletionTree)} {place first second : Place CompletionTree}
  {p q base : ErrorPath} {tree : CompletionTree}

/-- Places in order have different segments. -/
theorem segment_ne_of_sublist (hnodup : (places.map Place.segment).Nodup)
    (h : [first, second] <+ places) : first.segment ≠ second.segment := by
  have hpair := hnodup.sublist (h.map Place.segment)
  simpa using hpair

/-- Inside of a place the tree of the place decides. -/
theorem precedes_cons_iff (hnodup : (places.map Place.segment).Nodup) (hmem : place ∈ places) :
    (branch shape places).Precedes (place.segment :: p) (place.segment :: q) ↔
      place.tree.Precedes p q := by
  refine ⟨fun h => ?_, .inside hmem⟩
  generalize hp : place.segment :: p = path at h
  generalize hq : place.segment :: q = path' at h
  cases h with
  -- Parted paths begin with different segments, and these two begin with the same one.
  | parted p' q' hparted =>
    obtain ⟨hfirst, -⟩ := List.cons.inj hp
    obtain ⟨hsecond, -⟩ := List.cons.inj hq
    exact absurd (hfirst.symm.trans hsecond) (segment_ne_of_sublist hnodup hparted)
  | inside hmem' h =>
    -- The segment belongs to one place only, so that it is the tree of this place that orders them.
    obtain ⟨hsame, rfl⟩ := List.cons.inj hp
    obtain ⟨-, rfl⟩ := List.cons.inj hq
    rw [List.inj_on_of_nodup_map hnodup hmem hmem' hsame]
    exact h

/-- A later place does not precede an earlier one. -/
theorem not_precedes_of_sublist (hnodup : (places.map Place.segment).Nodup)
    (h : [first, second] <+ places) :
    ¬ (branch shape places).Precedes (second.segment :: q) (first.segment :: p) := by
  have hfirst : first ∈ places := h.subset (by simp)
  have hsecond : second ∈ places := h.subset (by simp)
  intro hprecedes
  generalize hq : second.segment :: q = path at hprecedes
  generalize hp : first.segment :: p = path' at hprecedes
  cases hprecedes with
  -- Distinct segments tell the two places, which would stand in both orders.
  | parted p' q' hparted =>
    have heq := List.inj_on_of_nodup_map hnodup hsecond (hparted.subset (by simp))
      (List.cons.inj hq).1
    have heq' := List.inj_on_of_nodup_map hnodup hfirst (hparted.subset (by simp))
      (List.cons.inj hp).1
    subst heq heq'
    exact not_sublist_swap (List.Nodup.of_map _ hnodup) h hparted
  -- Both paths would lead into one place, and the two places have different segments.
  | inside hmem hinside =>
    exact segment_ne_of_sublist hnodup h ((List.cons.inj hp).1.trans (List.cons.inj hq).1.symm)

theorem not_precedes_nil : ¬ tree.Precedes [] q := nofun

/-- Siblings are in the order of their places. -/
theorem precedes_siblings_iff {segment segment' : PathSegment} :
    (branch shape places).Precedes [segment] [segment'] ↔
      ∃ first second, [first, second] <+ places ∧ first.segment = segment ∧
        second.segment = segment' := by
  constructor
  · intro h
    cases h with
    | parted p q h => exact ⟨_, _, h, rfl, rfl⟩
    | inside hmem h => exact absurd h not_precedes_nil
  · rintro ⟨first, second, h, rfl, rfl⟩
    exact .parted [] [] h

/-! ### Errors of places -/

/-- The errors at and inside a place have paths that start with its segment. -/
theorem exists_path_of_mem_failures (h : Grown base (branch shape places)) (hmem : place ∈ places)
    {error : GraphQLError} (herror : error ∈ place.tree.failures) :
    ∃ p, error.path = some (base ++ place.segment :: p) := by
  have hplace := h.child (h.child?_of_mem hmem)
  obtain ⟨p, hp⟩ := (mem_failures_iff hplace).mp herror
  exact ⟨p, by rw [hplace.error_path hp, List.append_assoc, List.singleton_append]⟩

theorem nodup_segments (h : Grown base (branch shape places)) :
    (places.map Place.segment).Nodup := by
  cases h with
  | branch hfits _ _ => exact hfits.nodup

/-- **Errors of different places are in the order of the places**, and in no other one. -/
theorem errorPrecedes_of_sublist (h : Grown base (branch shape places))
    (hsub : [first, second] <+ places) {e f : GraphQLError} (he : e ∈ first.tree.failures)
    (hf : f ∈ second.tree.failures) :
    ErrorPrecedes base (branch shape places) e f ∧
      ¬ ErrorPrecedes base (branch shape places) f e := by
  obtain ⟨p, hp⟩ := exists_path_of_mem_failures h (hsub.subset (by simp)) he
  obtain ⟨q, hq⟩ := exists_path_of_mem_failures h (hsub.subset (by simp)) hf
  refine ⟨⟨_, _, hp, hq, .parted p q hsub⟩, ?_⟩
  rintro ⟨q', p', hq', hp', hprecedes⟩
  obtain rfl := List.append_cancel_left (Option.some.inj (hq.symm.trans hq'))
  obtain rfl := List.append_cancel_left (Option.some.inj (hp.symm.trans hp'))
  exact not_precedes_of_sublist (nodup_segments h) hsub hprecedes

/-- The order of the errors of one place is that of its tree. -/
theorem errorPrecedes_iff (h : Grown base (branch shape places)) (hmem : place ∈ places)
    {e f : GraphQLError} (he : e ∈ place.tree.failures) (hf : f ∈ place.tree.failures) :
    ErrorPrecedes base (branch shape places) e f ↔
      ErrorPrecedes (base ++ [place.segment]) place.tree e f := by
  -- Failures of the place have paths that start with its segment.
  obtain ⟨p, hp⟩ := exists_path_of_mem_failures h hmem he
  obtain ⟨q, hq⟩ := exists_path_of_mem_failures h hmem hf
  have hnodup := nodup_segments h
  constructor
  -- The paths of the errors tell how to take the paths apart.
  · rintro ⟨p', q', hp', hq', hprecedes⟩
    obtain rfl := List.append_cancel_left (Option.some.inj (hp.symm.trans hp'))
    obtain rfl := List.append_cancel_left (Option.some.inj (hq.symm.trans hq'))
    exact ⟨p, q, by simpa using hp, by simpa using hq, (precedes_cons_iff hnodup hmem).mp hprecedes⟩
  · rintro ⟨p', q', hp', hq', hprecedes⟩
    exact ⟨place.segment :: p', place.segment :: q', by simpa using hp', by simpa using hq',
      .inside hmem hprecedes⟩

/-! ### What is recorded in turn -/

/-- The first entry of a list after the other ones. -/
theorem tail_append_head_perm {α : Type} (l : List α) : (l.tail ++ l.head?.toList) ~ l := by
  cases l with
  | nil => exact .refl _
  | cons a l => exact List.perm_append_singleton a l

/-- What comes in two orders between two lists is nothing. -/
theorem forall_before_iff {α : Type} {R : α → α → Prop} {l l' : List α}
    (h : ∀ a ∈ l, ∀ b ∈ l', ¬ R b a) : (∀ b ∈ l', ∀ a ∈ l, R b a) ↔ l = [] ∨ l' = [] := by
  constructor
  · intro hbefore
    cases l with
    | nil => exact .inl rfl
    | cons a l =>
      refine .inr (List.eq_nil_iff_forall_not_mem.mpr fun b hb => ?_)
      exact h a List.mem_cons_self b hb (hbefore b hb a List.mem_cons_self)
  · rintro (rfl | rfl) <;> simp

/-- One place in front of others, each of which records some errors in its turn and some after all
turns, and leaves at most one: the order is kept if the place keeps it, if the other ones do, if they
record nothing in their turns where the place records an error later, and if they have no errors at all
where it leaves one. -/
theorem pairwise_turn_iff {α : Type} {R : α → α → Prop} {turn late left turns lates lefts : List α}
    (hleft : left.length ≤ 1)
    (h : ∀ a ∈ turn ++ (late ++ left), ∀ b ∈ turns ++ (lates ++ lefts), R a b ∧ ¬ R b a) :
    ((turn ++ turns) ++ (late ++ lates) ++
      ((left ++ lefts).tail ++ (left ++ lefts).head?.toList)).Pairwise R ↔
      (turn ++ (late ++ left)).Pairwise R ∧
        (turns ++ lates ++ (lefts.tail ++ lefts.head?.toList)).Pairwise R ∧
          (late = [] ∨ turns = []) ∧ (left = [] ∨ turns ++ (lates ++ lefts) = []) := by
  have hlefts : ∀ b, b ∈ lefts.tail ++ lefts.head?.toList ↔ b ∈ lefts :=
    fun b => (tail_append_head_perm lefts).mem_iff
  match left, hleft with
  | [], _ =>
    -- Only what is recorded late may come after something that it should come before.
    have hlate : (∀ b ∈ turns, ∀ a ∈ late, R b a) ↔ late = [] ∨ turns = [] :=
      forall_before_iff fun a ha b hb => (h a (by simp [ha]) b (by simp [hb])).2
    rw [← hlate]
    simp only [List.nil_append, List.append_nil, List.pairwise_append, List.mem_append] at h hlefts ⊢
    grind
  | [error], _ =>
    -- The error that is left comes after all other places, so these have none.
    have hnone : (∀ b ∈ turns ++ (lates ++ lefts), ∀ a ∈ [error], R b a) →
        turns ++ (lates ++ lefts) = [] := fun hbefore =>
      ((forall_before_iff fun a ha b hb => (h a (by simp_all) b hb).2).mp hbefore).resolve_left
        (List.cons_ne_nil error [])
    have hturned : ([error] ++ lefts).tail ++ ([error] ++ lefts).head?.toList =
        lefts ++ [error] := rfl
    rw [hturned]
    constructor
    · intro hpairwise
      have hempty := hnone fun b hb a ha => by
        simp only [List.pairwise_append, List.mem_append] at hpairwise hb
        grind
      simp only [List.append_eq_nil_iff] at hempty
      obtain ⟨rfl, rfl, rfl⟩ := hempty
      simpa using hpairwise
    · rintro ⟨hpairwise, -, -, hempty⟩
      simp only [List.cons_ne_nil, false_or, List.append_eq_nil_iff] at hempty
      obtain ⟨rfl, rfl, rfl⟩ := hempty
      simpa using hpairwise

/-- What a place records in its turn and late, and what it leaves. -/
theorem turn_append_late (shape : Shape) (place : Place CompletionTree) :
    place.recorded shape ++ (shape.late place.absorbed ++ place.left) =
      place.tree.recorded ++ leftBy place.tree.completed := by
  rw [Place.recorded, List.append_assoc, ← List.append_assoc _ _ place.left,
    Place.early_append_late, Place.absorbed_append_left]

/-- Siblings together record and leave what each of them does. -/
theorem flatMap_turns_perm (shape : Shape)
    (h : ∀ place ∈ places, (place.tree.recorded ++ leftBy place.tree.completed) ~
      place.tree.failures) :
    (places.flatMap (Place.recorded shape) ++
      ((places.flatMap fun place => shape.late place.absorbed) ++ places.flatMap Place.left)) ~
        places.flatMap fun place => place.tree.failures :=
  calc places.flatMap (Place.recorded shape) ++
        ((places.flatMap fun place => shape.late place.absorbed) ++ places.flatMap Place.left)
      ~ places.flatMap (Place.recorded shape) ++
        places.flatMap fun place => shape.late place.absorbed ++ place.left :=
        (List.flatMap_append_perm places _ _).append_left _
    _ ~ places.flatMap fun place =>
        place.recorded shape ++ (shape.late place.absorbed ++ place.left) :=
        List.flatMap_append_perm places _ _
    _ ~ places.flatMap fun place => place.tree.failures :=
        .flatMap_left places fun place hmem => turn_append_late shape place ▸ h place hmem

/-- **Every failure is recorded or left.** -/
theorem recorded_perm (hsound : tree.IsSound) :
    (tree.recorded ++ leftBy tree.completed) ~ tree.failures := by
  induction tree with
  | broken why => exact absurd hsound (not_isSound_broken why)
  | failed error => exact .refl _
  | leaf value => exact .refl _
  | branch shape places ih =>
    rw [isSound_branch_iff] at hsound
    rw [leftBy_completed_branch, recorded, recordedAmong_eq_flatMap, failures,
      failuresAmong_eq_flatMap, List.append_assoc, List.append_assoc]
    -- The first of the errors that are left is only moved to the end.
    have hmoved := (tail_append_head_perm (places.flatMap Place.left)).append_left
      (places.flatMap fun place => shape.late place.absorbed)
    exact (hmoved.append_left _).trans
      (flatMap_turns_perm shape fun place hmem => ih place hmem (hsound place hmem))

/-! ### Trees whose errors are in order -/

/-- The errors of two siblings, the first of which comes first, are in order: where the first one
records its own error only after all turns, the second one records nothing in its turn, and where the
first one leaves its error, the second one does not fail anywhere. -/
def KeepsOrder (shape : Shape) (first second : Place CompletionTree) : Prop :=
  (shape.late first.absorbed = [] ∨ second.recorded shape = []) ∧
    (first.left = [] ∨ second.tree.failures = [])

theorem forall_keepsOrder_iff :
    (∀ other ∈ places, KeepsOrder shape place other) ↔
      (shape.late place.absorbed = [] ∨ places.flatMap (Place.recorded shape) = []) ∧
        (place.left = [] ∨ (places.flatMap fun other => other.tree.failures) = []) := by
  simp only [KeepsOrder, List.flatMap_eq_nil_iff]
  grind

/-- Everywhere in the tree siblings keep the order. -/
inductive IsOrderly : CompletionTree → Prop
  | failed (error : GraphQLError) : IsOrderly (.failed error)
  | leaf (value : Value) : IsOrderly (.leaf value)
  | branch {shape : Shape} {places : List (Place CompletionTree)}
      (hinside : ∀ place ∈ places, IsOrderly place.tree) (hsiblings : places.Pairwise (KeepsOrder shape)) :
      IsOrderly (.branch shape places)

theorem isOrderly_branch_iff :
    IsOrderly (.branch shape places) ↔
      (∀ place ∈ places, place.tree.IsOrderly) ∧ places.Pairwise (KeepsOrder shape) :=
  ⟨fun h => by cases h with | branch hinside hsiblings => exact ⟨hinside, hsiblings⟩,
    fun h => .branch h.1 h.2⟩

/-- What some places record and leave, in order. -/
def turns (shape : Shape) (places : List (Place CompletionTree)) : List GraphQLError :=
  places.flatMap (Place.recorded shape) ++
    (places.flatMap fun place => shape.late place.absorbed) ++
    ((places.flatMap Place.left).tail ++ (places.flatMap Place.left).head?.toList)

theorem recorded_append_left (shape : Shape) (places : List (Place CompletionTree)) :
    (branch shape places).recorded ++ leftBy (branch shape places).completed =
      turns shape places := by
  rw [leftBy_completed_branch, recorded, recordedAmong_eq_flatMap, turns, List.append_assoc]

theorem length_left (place : Place CompletionTree) : place.left.length ≤ 1 := by
  rw [Place.left]
  cases place.completed <;> simp [leftBy]

/-- What a place records and leaves are failures at and inside it. -/
theorem mem_failures_of_turn (hsound : place.tree.IsSound) {error : GraphQLError}
    (h : error ∈ place.recorded shape ++ (shape.late place.absorbed ++ place.left)) :
    error ∈ place.tree.failures := by
  rw [turn_append_late] at h
  exact (recorded_perm hsound).subset h

/-- What a place records and leaves comes before what later places do, and not after it. -/
theorem errorPrecedes_later (h : Grown base (branch shape places))
    (hsound : ∀ place ∈ places, place.tree.IsSound) {rest : List (Place CompletionTree)}
    (hrest : place :: rest <+ places) :
    ∀ e ∈ place.recorded shape ++ (shape.late place.absorbed ++ place.left),
      ∀ f ∈ rest.flatMap (Place.recorded shape) ++
          ((rest.flatMap fun place => shape.late place.absorbed) ++ rest.flatMap Place.left),
        ErrorPrecedes base (branch shape places) e f ∧
          ¬ ErrorPrecedes base (branch shape places) f e := by
  intro e he f hf
  -- What the later places do is done by one of them.
  obtain ⟨other, hother, hf⟩ : ∃ other ∈ rest, f ∈ other.recorded shape ++
      (shape.late other.absorbed ++ other.left) := by
    simp only [List.mem_append, List.mem_flatMap] at hf ⊢
    grind
  -- That one stands behind the place, so that all of its failures do.
  have hpair : [place, other] <+ places :=
    (List.Sublist.cons_cons place (List.singleton_sublist.mpr hother)).trans hrest
  have hfirst : place ∈ places := hpair.subset (by simp)
  have hsecond : other ∈ places := hpair.subset (by simp)
  exact errorPrecedes_of_sublist h hpair (mem_failures_of_turn (hsound place hfirst) he)
    (mem_failures_of_turn (hsound other hsecond) hf)

/-- The siblings from some place on. The induction is on these siblings: the first of them comes
before the others, so its own errors have to be in order, the others theirs, and no error of it may
be recorded late if they have any. -/
theorem pairwise_turns_iff (h : Grown base (branch shape places))
    (hsound : ∀ place ∈ places, place.tree.IsSound)
    (ih : ∀ place ∈ places,
      (place.tree.recorded ++ leftBy place.tree.completed).Pairwise
        (ErrorPrecedes (base ++ [place.segment]) place.tree) ↔ place.tree.IsOrderly)
    {rest : List (Place CompletionTree)} (hrest : rest <+ places) :
    (turns shape rest).Pairwise (ErrorPrecedes base (branch shape places)) ↔
      (∀ place ∈ rest, place.tree.IsOrderly) ∧ rest.Pairwise (KeepsOrder shape) := by
  induction rest with
  | nil => simp [turns]
  | cons place rest ihrest =>
    have hmem : place ∈ places := hrest.subset List.mem_cons_self
    have hothers := ihrest ((List.sublist_cons_self place rest).trans hrest)
    have hbefore := errorPrecedes_later h hsound hrest
    -- The errors of the first place alone are those of its tree.
    have hplace : (place.recorded shape ++ (shape.late place.absorbed ++ place.left)).Pairwise
        (ErrorPrecedes base (branch shape places)) ↔ place.tree.IsOrderly := by
      rw [← ih place hmem, ← turn_append_late shape place]
      exact List.Pairwise.iff_of_mem fun {e f} he hf =>
        errorPrecedes_iff h hmem (mem_failures_of_turn (hsound place hmem) he)
          (mem_failures_of_turn (hsound place hmem) hf)
    rw [turns, List.flatMap_cons, List.flatMap_cons, List.flatMap_cons,
      pairwise_turn_iff (length_left place) hbefore, hplace, ← turns, hothers, List.pairwise_cons,
      List.forall_mem_cons]
    -- The other places have errors exactly if something fails there.
    have hperm := flatMap_turns_perm shape fun other hother =>
      recorded_perm (hsound other (hrest.subset (List.mem_cons_of_mem place hother)))
    have hnone : rest.flatMap (Place.recorded shape) ++
        ((rest.flatMap fun place => shape.late place.absorbed) ++ rest.flatMap Place.left) = [] ↔
          (rest.flatMap fun place => place.tree.failures) = [] :=
      ⟨fun h => List.nil_perm.mp (h ▸ hperm), fun h => List.perm_nil.mp (h ▸ hperm)⟩
    rw [hnone, forall_keepsOrder_iff]
    constructor
    · rintro ⟨hfirst, ⟨hinside, hlater⟩, hlate, hleft⟩
      exact ⟨⟨hfirst, hinside⟩, ⟨hlate, hleft⟩, hlater⟩
    · rintro ⟨⟨hfirst, hinside⟩, ⟨hlate, hleft⟩, hlater⟩
      exact ⟨hfirst, ⟨hinside, hlater⟩, hlate, hleft⟩

/-- **The errors that a tree records and leaves are in document order exactly if it is orderly.** -/
theorem pairwise_recorded_iff (hgrown : Grown base tree) (hsound : tree.IsSound) :
    (tree.recorded ++ leftBy tree.completed).Pairwise (ErrorPrecedes base tree) ↔
      tree.IsOrderly := by
  induction tree generalizing base with
  | broken why => exact absurd hsound (not_isSound_broken why)
  | failed error => exact ⟨fun _ => .failed error, fun _ => List.pairwise_singleton _ _⟩
  | leaf value => exact ⟨fun _ => .leaf value, fun _ => .nil⟩
  | branch shape places ih =>
    rw [isSound_branch_iff] at hsound
    rw [recorded_append_left, isOrderly_branch_iff]
    refine pairwise_turns_iff hgrown hsound (fun place hmem => ?_) (.refl places)
    exact ih place hmem (hgrown.child (hgrown.child?_of_mem hmem)) (hsound place hmem)

end CompletionTree

open CompletionTree

section Responses

variable {schema : Schema} {document : Document} {params : ExecutionParams} {ctx : ExecutionContext}
  {response : Response}

/-- **The errors of an execution that waits for nothing.** They are those that the tree of the operation
records, in its order; and they are in document order exactly if the tree is orderly. -/
theorem errors_in_document_order_iff
    (hbuild : ExecutionContext.build schema document params = .ok (.ok ctx))
    (hresponse : (execute schema document params).outcome = .ok response)
    (hready : (execute schema document params).isReady = true) :
    response.errors = ctx.recordedErrors.map ctx.shownError ∧
      (response.errors.Pairwise (ErrorPrecedes [] ctx.reachedTree) ↔
        ctx.reachedTree.IsOrderly) := by
  rw [execute_of_build hbuild] at hresponse hready
  have herrors := ExecutionContext.errors_of_ready hresponse hready
  have hsound := (ExecutionContext.answer_of_outcome hresponse).sound
  refine ⟨herrors, ?_⟩
  rw [herrors, List.pairwise_map, ← pairwise_recorded_iff ExecutionContext.reachedTree_grown hsound]
  simp only [ErrorPrecedes, ExecutionContext.path_shownError]
  exact Iff.rfl

end Responses

/-! ### An object with two failures -/

namespace PairSample

/-- The resolver of a field that fails. -/
def failing (message : String) : FieldHooks :=
  ⟨some fun _ => .returned [] (.err (.new message)), none⟩

/-- Two numbers, the first of which must not be null. -/
def pair : ObjectType where
  name := "A"
  description := none
  fields := .ofList [⟨"x", none, .namedNonNull "Int", .empty⟩, ⟨"y", none, .named "Int", .empty⟩]
  interfaces := []
  isTypeOf := none

def query : ObjectType where
  name := "Query"
  description := none
  fields := .ofList [⟨"a", none, .named "A", .empty⟩]
  interfaces := []
  isTypeOf := none

/-- There is a pair, but both of its fields fail. -/
def builder : SchemaBuilder :=
  ((SchemaBuilder.new "Query" none none).register
    ⟨.object query, ⟨[("a", ⟨some fun _ => .returned [] (.ok (.plain (.object []))), none⟩)],
      none⟩⟩).register
    ⟨.object pair, ⟨[("x", failing "x failed"), ("y", failing "y failed")], none⟩⟩

/-- The schema that the builder makes. -/
def schema : Schema := builder.finish.toOption.getD ⟨⟨[], "", none, none, []⟩, [], .standard⟩

/-- The selection of a field in the given column. -/
def selection (name : String) (column : Nat) (selections : List Selection) : Selection :=
  .field ⟨none, name, [], [], selections, ⟨1, column⟩⟩

def document : Document :=
  ⟨.anonymous ⟨.query, [], [], [selection "a" 3 [selection "x" 7 [], selection "y" 9 []]],
    ⟨1, 1⟩⟩, []⟩

theorem parse_eq : Document.parse "{ a { x y } }" = .ok document :=
  Document.parse_eq_of_outline? ⟨.query, [], ("a", 3), [("x", 7), ("y", 9)]⟩ (by decide +kernel)

def ctx : ExecutionContext where
  schema := schema
  fragments := []
  operation := ⟨.query, [], [], [selection "a" 3 [selection "x" 7 [], selection "y" 9 []]], ⟨1, 1⟩⟩
  rootValue := .null
  context := none
  vars := .empty
  fieldResolver := .standard
  typeResolver := .standard
  middleware := .empty
  isEvent := false

theorem build_eq : ExecutionContext.build schema document {} = .ok (.ok ctx) := rfl

/-- The error of the first field is left to the pair, and recorded after that of the second one. -/
theorem exists_response : ∃ response, (execute schema document {}).outcome = .ok response ∧
    (execute schema document {}).isReady = true ∧
    response.errors.map GraphQLError.path =
      [some [.field "a", .field "y"], some [.field "a", .field "x"]] := ⟨_, rfl, rfl, rfl⟩

/-- The places of the operation. -/
theorem exists_places : ∃ a x y : Place CompletionTree, ctx.tree = .branch .object [a] ∧
    a.tree = .branch .object [x, y] ∧ a.segment = .field "a" ∧ x.segment = .field "x" ∧
      y.segment = .field "y" := ⟨_, _, _, rfl, rfl, rfl, rfl, rfl⟩

/-- In the document the first field precedes the second one, and not the other way round. -/
theorem precedes_iff {key key' : String} :
    ctx.tree.Precedes [.field "a", .field key] [.field "a", .field key'] ↔
      key = "x" ∧ key' = "y" := by
  obtain ⟨a, x, y, htree, hinner, ha, hx, hy⟩ := exists_places
  have hnodup : ([a].map Place.segment).Nodup := List.nodup_singleton a.segment
  rw [htree, ← ha, precedes_cons_iff hnodup (List.mem_singleton_self a), hinner,
    precedes_siblings_iff]
  constructor
  -- Two members in the order of the pair are the pair itself.
  · rintro ⟨first, second, hsub, hfirst, hsecond⟩
    obtain ⟨rfl, rfl⟩ : first = x ∧ second = y := by simpa using hsub.eq_of_length rfl
    exact ⟨(PathSegment.field.inj (hx.symm.trans hfirst)).symm,
      (PathSegment.field.inj (hy.symm.trans hsecond)).symm⟩
  · rintro ⟨rfl, rfl⟩
    exact ⟨x, y, .refl _, hx, hy⟩

end PairSample

/-- The pair keeps no order: its second field fails although the first one leaves its error. -/
theorem errors_in_document_order_iff_sample :
    ∃ response, (execute PairSample.schema PairSample.document {}).outcome = .ok response ∧
      (execute PairSample.schema PairSample.document {}).isReady = true ∧
      response.errors = PairSample.ctx.recordedErrors.map PairSample.ctx.shownError ∧
      ¬ PairSample.ctx.reachedTree.IsOrderly := by
  obtain ⟨response, hresponse, hready, hpaths⟩ := PairSample.exists_response
  obtain ⟨herrors, horder⟩ := errors_in_document_order_iff PairSample.build_eq hresponse hready
  refine ⟨response, hresponse, hready, herrors, fun horderly => ?_⟩
  -- Were the pair orderly, the two errors of its response would be in the order of their places.
  have hpairs : (response.errors.map GraphQLError.path).Pairwise fun first second =>
      ∃ p q, first = some ([] ++ p) ∧ second = some ([] ++ q) ∧
        PairSample.ctx.reachedTree.Precedes p q := List.pairwise_map.mpr (horder.mpr horderly)
  rw [hpaths, List.pairwise_pair] at hpairs
  -- The first error is that of the second field, which the document has behind the first one.
  obtain ⟨p, q, hp, hq, hprecedes⟩ := hpairs
  obtain rfl := Option.some.inj hp
  obtain rfl := Option.some.inj hq
  exact absurd (PairSample.precedes_iff.mp hprecedes).1 (by decide)

/-- **Errors out of order**: an execution waits for nothing, and still reports the error of the second
field of an object before that of the first one. -/
theorem errors_out_of_order :
    PairSample.builder.finish = .ok PairSample.schema ∧
      Document.parse "{ a { x y } }" = .ok PairSample.document ∧
      ∃ response, (execute PairSample.schema PairSample.document {}).outcome = .ok response ∧
        (execute PairSample.schema PairSample.document {}).isReady = true ∧
        response.errors.map GraphQLError.path =
          [some [.field "a", .field "y"], some [.field "a", .field "x"]] ∧
        PairSample.ctx.tree.Precedes [.field "a", .field "x"] [.field "a", .field "y"] := by
  obtain ⟨response, hresponse, hready, hpaths⟩ := PairSample.exists_response
  exact ⟨rfl, PairSample.parse_eq, response, hresponse, hready, hpaths,
    PairSample.precedes_iff.mpr ⟨rfl, rfl⟩⟩

end GraphQL
