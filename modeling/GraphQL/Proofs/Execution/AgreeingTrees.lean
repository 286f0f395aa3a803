import GraphQL.Proofs.Execution.GrownTrees

/-!
# Trees that agree outside a position

Two completion trees may be the same but for what stands at one position. If the position may be null,
whatever goes wrong at it or below stays there: an error is absorbed at the position at the latest, so
the rest of the data is the same, and so are the errors that belong elsewhere.

* `CompletionTree.AgreesOutside` — the trees agree, but for the subtree at a path;
* `Value.blank` — a value with null at a path, which forgets what is there;
* `AgreesOutside.completed_eq` — the values are equal but for the position, or both trees leave the same
  error;
* `AgreesOutside.failures_eq` — the failures elsewhere are the same, in the same order;
* `AgreesOutside.isSound_iff` — only the subtree at the position can break the other tree down;
* `AgreesOutside.inTurn` — the places that are reached one after the other agree as well.
-/

namespace GraphQL

/-- The error does not belong to a position or to one below it. -/
def GraphQLError.isOutside (q : ErrorPath) (error : GraphQLError) : Bool :=
  match error.path with
  | none => true
  | some path => !q.isPrefixOf path

namespace Value

/-- The value with null at a path, as far as the path leads into the value. -/
def blank : ErrorPath → Value → Value
  | [], _ => .null
  | .field key :: rest, .object entries =>
      .object (entries.map fun entry =>
        if entry.1 = key then (entry.1, blank rest entry.2) else entry)
  | .index i :: rest, .list items => .list (items.modify i (blank rest))
  | _ :: _, value => value

@[simp] theorem blank_nil (value : Value) : value.blank [] = .null := by
  cases value <;> rfl

@[simp] theorem blank_null (q : ErrorPath) : Value.null.blank q = .null := by
  cases q with
  | nil => rfl
  | cons segment rest => cases segment <;> rfl

/-- Keys other than that of a changed entry keep their values. -/
theorem get?_map_of_ne (f : Value → Value) (entries : Entries Value) {key other : String}
    (h : other ≠ key) :
    Entries.get? (entries.map fun entry =>
      if entry.1 = key then (entry.1, f entry.2) else entry) other = Entries.get? entries other := by
  induction entries with
  | nil => rfl
  | cons entry rest ih =>
    obtain ⟨first, value⟩ := entry
    rw [List.map_cons, Entries.get?]
    by_cases hfirst : first = key
    · have hne : first ≠ other := fun heq => h (heq.symm.trans hfirst)
      rw [if_pos hfirst, Entries.get?, if_neg hne, if_neg hne, ih]
    · rw [if_neg hfirst, Entries.get?, ih]

/-- The key of a changed entry has the changed value. -/
theorem get?_map_self (f : Value → Value) (entries : Entries Value) (key : String) :
    Entries.get? (entries.map fun entry =>
      if entry.1 = key then (entry.1, f entry.2) else entry) key =
        (Entries.get? entries key).map f := by
  induction entries with
  | nil => rfl
  | cons entry rest ih =>
    obtain ⟨first, value⟩ := entry
    rw [List.map_cons, Entries.get?]
    by_cases hfirst : first = key
    · rw [if_pos hfirst, Entries.get?, if_pos hfirst, if_pos hfirst, Option.map_some]
    · rw [if_neg hfirst, Entries.get?, if_neg hfirst, if_neg hfirst, ih]

/-- **Blanking forgets nothing elsewhere**: off the way to the blanked position, and not below it,
all values are kept. The induction is on the blanked position: as long as the two paths have the
same first segment it steps into the same entry. -/
theorem at?_blank {q p : ErrorPath} (value : Value) (hbelow : ¬ q <+: p) (habove : ¬ p <+: q) :
    (value.blank q).at? p = value.at? p := by
  induction q generalizing p value with
  | nil => exact absurd List.nil_prefix hbelow
  | cons segment rest ih =>
    cases p with
    | nil => exact absurd List.nil_prefix habove
    | cons segment' rest' =>
      rw [List.cons_prefix_cons] at hbelow habove
      cases segment with
      | field key =>
        cases value with
        | object entries =>
          rw [blank]
          cases segment' with
          | index j => rfl
          | field key' =>
            rw [at?, at?]
            by_cases hkey : key' = key
            · subst hkey
              rw [get?_map_self, Option.bind_map]
              refine Option.bind_congr fun inner _ => ?_
              exact ih inner (fun h => hbelow ⟨rfl, h⟩) fun h => habove ⟨rfl, h⟩
            · rw [get?_map_of_ne _ _ hkey]
        | _ => rfl
      | index i =>
        cases value with
        | list items =>
          rw [blank]
          cases segment' with
          | field key => rfl
          | index j =>
            rw [at?, at?]
            by_cases hindex : i = j
            · subst hindex
              rw [List.getElem?_modify_eq, Option.map_eq_map, Option.bind_map]
              refine Option.bind_congr fun inner _ => ?_
              exact ih inner (fun h => hbelow ⟨rfl, h⟩) fun h => habove ⟨rfl, h⟩
            · rw [List.getElem?_modify_ne _ _ hindex]
        | _ => rfl

/-- Values that are equal after blanking are equal elsewhere. -/
theorem at?_eq_of_blank_eq {q p : ErrorPath} {value value' : Value}
    (h : value.blank q = value'.blank q) (hbelow : ¬ q <+: p) (habove : ¬ p <+: q) :
    value.at? p = value'.at? p := by
  rw [← at?_blank value hbelow habove, h, at?_blank value' hbelow habove]

end Value

/-- The value that a completion leaves is blanked as the completion is. -/
theorem Completed.blank_valueOrNull (q : ErrorPath) (completed : Completed) :
    completed.valueOrNull.blank q = (Completed.valueOrNull (completed.map (Value.blank q))) := by
  cases completed with
  | error error => exact Value.blank_null q
  | ok value => rfl

/-- A place that absorbs errors does so at every position inside of it. -/
theorem Completed.map_blank_absorbed (q : ErrorPath) (nonNull : Bool) (completed : Completed) :
    (completed.absorbed nonNull).map (Value.blank q) =
      Completed.absorbed nonNull (completed.map (Value.blank q)) := by
  cases completed with
  | ok value => rfl
  | error error =>
    cases nonNull with
    | true => rfl
    | false => exact congrArg Except.ok (Value.blank_null q)

namespace Shape

/-- The entries with the one of a segment blanked further down. -/
def blankEntry (segment : PathSegment) (rest : ErrorPath) (entry : PathSegment × Value) :
    PathSegment × Value :=
  if entry.1 = segment then (entry.1, entry.2.blank rest) else entry

/-- Blanking inside a list or an object is blanking one of its entries. The entries of a list carry
their indices and those of an object distinct keys, so a segment is that of one entry at most, and
the others are left alone. -/
theorem blank_value {shape : Shape} {entries : List (PathSegment × Value)} {segment : PathSegment}
    {rest : ErrorPath} (hfits : shape.Fits (entries.map Prod.fst))
    (hmem : segment ∈ entries.map Prod.fst) :
    (shape.value entries).blank (segment :: rest) =
      shape.value (entries.map (blankEntry segment rest)) := by
  cases shape with
  | list =>
    -- The segments are the indices, in their order.
    have hindex : ∀ (j : Nat) (entry : PathSegment × Value), entries[j]? = some entry →
        entry.1 = .index j := by
      intro j entry hj
      have hsegment : (entries.map Prod.fst)[j]? = some entry.1 := by
        rw [List.getElem?_map, hj, Option.map_some]
      rw [show entries.map Prod.fst = _ from hfits, List.getElem?_map] at hsegment
      obtain ⟨i, hi, hentry⟩ := Option.map_eq_some_iff.mp hsegment
      obtain ⟨_, rfl⟩ := List.getElem?_eq_some_iff.mp hi
      rw [← hentry, List.getElem_range]
    obtain ⟨entry, hentry, rfl⟩ := List.mem_map.mp hmem
    obtain ⟨i, hi⟩ := List.mem_iff_getElem?.mp hentry
    rw [hindex i entry hi, value, value, Value.blank]
    refine congrArg _ (List.ext_getElem? fun j => ?_)
    rw [List.getElem?_modify, List.getElem?_map, List.getElem?_map, List.getElem?_map]
    cases hj : entries[j]? with
    | none => rfl
    | some other =>
      have hother := hindex j other hj
      by_cases hsame : i = j
      · simp [blankEntry, hother, hsame]
      · simp [blankEntry, hother, hsame, Ne.symm hsame]
  | object =>
    obtain ⟨keys, -, hkeys⟩ := hfits
    have hfield : ∀ entry ∈ entries, ∃ key, entry.1 = .field key := by
      intro entry hentry
      have hsegment : entry.1 ∈ keys.map PathSegment.field := hkeys ▸ List.mem_map_of_mem hentry
      obtain ⟨key, -, hkey⟩ := List.mem_map.mp hsegment
      exact ⟨key, hkey.symm⟩
    obtain ⟨entry, hentry, rfl⟩ := List.mem_map.mp hmem
    obtain ⟨key, hkey⟩ := hfield entry hentry
    rw [hkey, value, value, Value.blank, List.map_map, List.map_map]
    refine congrArg _ (List.map_congr_left fun other hother => ?_)
    obtain ⟨key', hkey'⟩ := hfield other hother
    by_cases hsame : key' = key
    · simp [blankEntry, hkey', hsame, PathSegment.text]
    · simp [blankEntry, hkey', hsame, PathSegment.text]

end Shape

namespace CompletionTree

/-- Two trees agree outside a position: they are equal, or equal but for the subtree at the position. -/
inductive AgreesOutside : ErrorPath → CompletionTree → CompletionTree → Prop
  | same (q : ErrorPath) (tree : CompletionTree) : AgreesOutside q tree tree
  /-- At the position itself any tree may stand. -/
  | here (tree other : CompletionTree) : AgreesOutside [] tree other
  /-- The position is inside of one place, and the places beside it are the same. -/
  | inside {shape : Shape} {before after : List (Place CompletionTree)}
      {place : Place CompletionTree} {other : CompletionTree} {rest : ErrorPath}
      (h : AgreesOutside rest place.tree other) :
      AgreesOutside (place.segment :: rest) (.branch shape (before ++ place :: after))
        (.branch shape (before ++ { place with tree := other } :: after))

variable {tree other : CompletionTree} {q base : ErrorPath}

/-! ### The position in both trees -/

/-- A place of a branch is found under its segment. -/
theorem Grown.child?_branch {shape : Shape} {before after : List (Place CompletionTree)}
    {place : Place CompletionTree} (h : Grown base (.branch shape (before ++ place :: after))) :
    (CompletionTree.branch shape (before ++ place :: after)).child? place.segment = some place :=
  h.child?_of_mem (List.mem_append_right before List.mem_cons_self)

theorem Grown.fits {shape : Shape} {places : List (Place CompletionTree)}
    (h : Grown base (.branch shape places)) : shape.Fits (places.map Place.segment) := by
  cases h with
  | branch hfits _ _ => exact hfits

/-- Nothing inside of a tree belongs elsewhere. -/
theorem Grown.filter_isOutside (h : Grown base tree) :
    tree.failures.filter (GraphQLError.isOutside base) = [] := by
  rw [List.filter_eq_nil_iff]
  intro error herror
  obtain ⟨path, hfails⟩ := (mem_failures_iff h).mp herror
  rw [GraphQLError.isOutside, h.error_path hfails]
  simp

theorem IsSound.subtree (h : tree.IsSound) {inner : CompletionTree}
    (hinner : tree.subtree? q = some inner) : inner.IsSound := by
  induction q generalizing tree with
  | nil =>
    obtain rfl := Option.some.inj hinner
    exact h
  | cons segment rest ih =>
    rw [subtree?, Option.bind_eq_some_iff] at hinner
    obtain ⟨place, hchild, hinner⟩ := hinner
    exact ih (h.child hchild) hinner

theorem exists_subtree?_of_isNullable (h : tree.IsNullable q) :
    ∃ inner, tree.subtree? q = some inner := by
  obtain ⟨place, hplace, -⟩ := h
  have hq : q ≠ [] := fun hnil => by rw [hnil] at hplace; exact absurd hplace (by simp [place?])
  exact ⟨place.tree, by rw [subtree?_eq_map_place? hq, hplace, Option.map_some]⟩

namespace AgreesOutside

/-- The position may be null in the other tree as well. -/
theorem isNullable (h : AgreesOutside q tree other) (hgrown : Grown base tree)
    (hgrown' : Grown base other) (hq : tree.IsNullable q) : other.IsNullable q := by
  induction h generalizing base with
  | same q tree => exact hq
  | here tree other => exact absurd hq not_isNullable_nil
  | @inside shape before after place other rest h ih =>
    have hchild := hgrown.child?_branch
    have hchild' := hgrown'.child?_branch
    rw [isNullable_cons hchild] at hq
    refine (isNullable_cons hchild').mpr (hq.imp id fun hinner => ?_)
    exact ih (hgrown.child hchild) (hgrown'.child hchild') hinner

/-- **Only the subtree at the position can break the other tree down.** -/
theorem isSound_iff (h : AgreesOutside q tree other) (hgrown : Grown base tree)
    (hgrown' : Grown base other) (hsound : tree.IsSound) (hq : ∃ inner, tree.subtree? q = some inner) :
    other.IsSound ↔ ∃ inner, other.subtree? q = some inner ∧ inner.IsSound := by
  induction h generalizing base with
  | same q tree =>
    obtain ⟨inner, hinner⟩ := hq
    refine iff_of_true hsound ⟨inner, hinner, ?_⟩
    exact hsound.subtree hinner
  | here tree other => simp [subtree?]
  | @inside shape before after place other rest h ih =>
    have hchild := hgrown.child?_branch
    have hchild' := hgrown'.child?_branch
    rw [subtree?_cons hchild] at hq
    rw [subtree?_cons hchild', ← ih (hgrown.child hchild) (hgrown'.child hchild')
      (hsound.child hchild) hq]
    -- The places beside the one on the way are those of the first tree.
    rw [isSound_branch_iff] at hsound ⊢
    simp only [List.forall_mem_append, List.forall_mem_cons] at hsound ⊢
    exact ⟨fun hall => hall.2.1, fun hother => ⟨hsound.1, hother, hsound.2.2⟩⟩

/-! ### Failures -/

/-- **The failures that belong elsewhere are the same.** -/
theorem failures_eq (h : AgreesOutside q tree other) (hgrown : Grown base tree)
    (hgrown' : Grown base other) :
    tree.failures.filter (GraphQLError.isOutside (base ++ q)) =
      other.failures.filter (GraphQLError.isOutside (base ++ q)) := by
  induction h generalizing base with
  | same q tree => rfl
  | here tree other =>
    -- All failures are at the position or below it.
    rw [List.append_nil, hgrown.filter_isOutside, hgrown'.filter_isOutside]
  | @inside shape before after place other rest h ih =>
    have hinner := ih (hgrown.child hgrown.child?_branch) (hgrown'.child hgrown'.child?_branch)
    rw [List.append_assoc, List.singleton_append] at hinner
    simp only [failures, failuresAmong_eq_flatMap, List.flatMap_append, List.flatMap_cons,
      List.filter_append]
    rw [hinner]

end AgreesOutside

/-! ### Values -/

/-- The entries of some places of which one is replaced, but for what the replaced one holds. The
induction is on the places before it. -/
theorem completedPlaces_replace {before after : List (Place CompletionTree)}
    {place : Place CompletionTree} {rest : ErrorPath}
    (hplace : place.completed.map (Value.blank rest) =
      ({ place with tree := other } : Place CompletionTree).completed.map (Value.blank rest)) :
    (completedPlaces (before ++ place :: after)).map
        (List.map (Shape.blankEntry place.segment rest)) =
      (completedPlaces (before ++ { place with tree := other } :: after)).map
        (List.map (Shape.blankEntry place.segment rest)) := by
  -- An entry in front of the others is blanked like them.
  have hcons : ∀ (entry : PathSegment × Value)
      (result : Except GraphQLError (List (PathSegment × Value))),
      (result.map (entry :: ·)).map (List.map (Shape.blankEntry place.segment rest)) =
        (result.map (List.map (Shape.blankEntry place.segment rest))).map
          (Shape.blankEntry place.segment rest entry :: ·) := by
    intro entry result
    cases result <;> rfl
  induction before with
  | nil =>
    simp only [List.nil_append, completedPlaces_cons]
    generalize ({ place with tree := other } : Place CompletionTree).completed = completed at hplace
    cases hvalue : place.completed with
    | error error =>
      rw [hvalue] at hplace
      cases completed with
      | error error' => rw [Except.error.inj hplace]
      | ok value' => exact absurd hplace (by simp [Except.map])
    | ok value =>
      rw [hvalue] at hplace
      cases completed with
      | error error' => exact absurd hplace (by simp [Except.map])
      | ok value' =>
        have hblank : value.blank rest = value'.blank rest := Except.ok.inj hplace
        simp only [hcons]
        simp only [Shape.blankEntry, if_true, hblank]
  | cons first before ih =>
    simp only [List.cons_append, completedPlaces_cons]
    cases first.completed with
    | error error => rfl
    | ok value => simp only [hcons, ih]

/-- Results that are equal after blanking are errors together. -/
theorem exists_error_iff_of_map_eq {f : Value → Value} {result result' : Completed}
    (h : result.map f = result'.map f) :
    (∃ error, result = .error error) ↔ ∃ error, result' = .error error := by
  cases result <;> cases result' <;> simp_all [Except.map]

/-- Blanking inside a branch is blanking among the entries of its places. -/
theorem completed_branch_blank {shape : Shape} {places : List (Place CompletionTree)}
    {segment : PathSegment} {rest : ErrorPath} (hfits : shape.Fits (places.map Place.segment))
    (hmem : segment ∈ places.map Place.segment) :
    (branch shape places).completed.map (Value.blank (segment :: rest)) =
      ((completedPlaces places).map (List.map (Shape.blankEntry segment rest))).map shape.value := by
  rw [completed]
  cases hplaces : completedPlaces places with
  | error error => rfl
  | ok entries =>
    have hsegments := map_fst_of_completesTo (forall₂_of_completedPlaces hplaces)
    rw [← hsegments] at hfits hmem
    exact congrArg Except.ok (Shape.blank_value hfits hmem)

/-- A place with another tree is completed with the same, but for the position. If the place is the position
itself, this is so because it may be null. -/
theorem completed_replace {place : Place CompletionTree} (other : CompletionTree)
    {rest : ErrorPath} (hnull : rest = [] ∧ place.nonNull = false ∨
      place.tree.completed.map (Value.blank rest) = other.completed.map (Value.blank rest)) :
    place.completed.map (Value.blank rest) =
      ({ place with tree := other } : Place CompletionTree).completed.map (Value.blank rest) := by
  rw [Place.completed, Place.completed, Completed.map_blank_absorbed, Completed.map_blank_absorbed]
  rcases hnull with ⟨rfl, hnull⟩ | hsame
  · rw [hnull]
    cases place.tree.completed <;> cases other.completed <;> simp [Except.map, Completed.absorbed]
  · rw [hsame]

namespace AgreesOutside

/-- **The values are equal but for the position**, or both trees leave the same error. -/
theorem completed_eq (h : AgreesOutside q tree other) (hgrown : Grown base tree)
    (hgrown' : Grown base other) (hq : tree.IsNullable q) :
    tree.completed.map (Value.blank q) = other.completed.map (Value.blank q) := by
  induction h generalizing base with
  | same q tree => rfl
  | here tree other => exact absurd hq not_isNullable_nil
  | @inside shape before after place other rest h ih =>
    have hchild := hgrown.child?_branch
    have hchild' := hgrown'.child?_branch
    -- The place is the position itself, which absorbs every error, or the position is further down.
    have hplace := completed_replace other
      (((isNullable_cons hchild).mp hq).imp id fun hinner =>
        ih (hgrown.child hchild) (hgrown'.child hchild') hinner)
    rw [completed_branch_blank hgrown.fits (by simp), completed_branch_blank hgrown'.fits (by simp),
      completedPlaces_replace hplace]

end AgreesOutside

/-! ### Places that are reached -/

/-- What is reached if one place is replaced by another that leaves an error exactly if it does.
Either the place is not reached at all, which is for the places before it to say, or the same ones
are reached behind it. The induction is on the places before it. -/
theorem reachedInTurn_replace (before after : List (Place CompletionTree))
    {place place' : Place CompletionTree}
    (herror : (∃ error, place.completed = .error error) ↔ ∃ error, place'.completed = .error error) :
    reachedInTurn (before ++ place :: after) = reachedInTurn (before ++ place' :: after) ∨
      ∃ after', reachedInTurn (before ++ place :: after) = before ++ place :: after' ∧
        reachedInTurn (before ++ place' :: after) = before ++ place' :: after' := by
  induction before with
  | nil =>
    simp only [List.nil_append, reachedInTurn]
    cases hplace : place.completed with
    | error error =>
      obtain ⟨error', hplace'⟩ := herror.mp ⟨error, hplace⟩
      rw [hplace']
      exact .inr ⟨[], rfl, rfl⟩
    | ok value =>
      cases hplace' : place'.completed with
      | error error' =>
        obtain ⟨error, hother⟩ := herror.mpr ⟨error', hplace'⟩
        rw [hplace] at hother
        exact absurd hother (by simp)
      | ok value' => exact .inr ⟨reachedInTurn after, rfl, rfl⟩
  | cons first before ih =>
    simp only [List.cons_append, reachedInTurn]
    cases first.completed with
    -- The place is not reached.
    | error error => exact .inl rfl
    | ok value =>
      rcases ih with hsame | ⟨after', hplace, hplace'⟩
      · exact .inl (congrArg _ hsame)
      · exact .inr ⟨after', congrArg _ hplace, congrArg _ hplace'⟩

theorem isNullable_of_inTurn (h : tree.inTurn.IsNullable q) : tree.IsNullable q := by
  cases q with
  | nil => exact absurd h not_isNullable_nil
  | cons segment rest =>
    obtain ⟨place, hplace, -⟩ := id h
    obtain ⟨child, hchild⟩ := exists_child_of_place? hplace
    rw [isNullable_cons hchild] at h
    exact (isNullable_cons (child?_of_inTurn hchild)).mpr h

namespace AgreesOutside

/-- **The places that are reached one after the other agree as well**: the position hands no error on, so
it stops no others. -/
theorem inTurn (h : AgreesOutside q tree other) (hgrown : Grown base tree)
    (hgrown' : Grown base other) (hq : tree.IsNullable q) :
    AgreesOutside q tree.inTurn other.inTurn := by
  cases h with
  | same => exact .same q tree.inTurn
  | here => exact .here tree.inTurn other.inTurn
  | @inside shape before after place other rest h =>
    have hchild := hgrown.child?_branch
    have hchild' := hgrown'.child?_branch
    have hplace := completed_replace other
      (((isNullable_cons hchild).mp hq).imp id fun hinner =>
        h.completed_eq (hgrown.child hchild) (hgrown'.child hchild') hinner)
    -- So the places after it are reached in both trees or in none.
    have herror := exists_error_iff_of_map_eq hplace
    rcases reachedInTurn_replace before after herror with
      hsame | ⟨after', hreached, hreached'⟩
    · rw [CompletionTree.inTurn, CompletionTree.inTurn, hsame]
      exact .same _ _
    · rw [CompletionTree.inTurn, CompletionTree.inTurn, hreached, hreached']
      exact .inside h

end AgreesOutside

end CompletionTree

/-- A position that is reached and may be null is one of the whole tree. -/
theorem ExecutionContext.isNullable_tree (ctx : ExecutionContext) {q : ErrorPath}
    (hq : ctx.reachedTree.IsNullable q) : ctx.tree.IsNullable q := by
  rw [reachedTree] at hq
  split at hq
  · exact CompletionTree.isNullable_of_inTurn hq
  · exact hq

end GraphQL
