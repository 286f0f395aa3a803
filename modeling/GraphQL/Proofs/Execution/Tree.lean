import GraphQL.Execution.Event
import Mathlib.Data.List.Basic

/-!
# Completion trees

An execution settles, place by place, what becomes of the response: a place fails, has a value
without places inside, or is a list or an object with places of its own. A `CompletionTree` keeps
all of that apart from the order in which things happen and from what the failures do to each other.
The data of the response, its errors and the calls of resolvers are then functions of the tree:

* `CompletionTree.completed` — the value of a place, or the error that it leaves to the place around
  it: among several errors the one of the first place;
* `CompletionTree.failures` — the errors of all places that fail, each once;
* `CompletionTree.calls` — the calls of resolvers;
* `CompletionTree.IsSound` — no place breaks down, so that there is a response at all.

`Value.at?` finds the value at a path.
-/

namespace GraphQL

/-- A call of the resolver of a field, with all interceptors around it. -/
structure ResolverCall where
  path : QueryPath
  parent : FieldValue
  arguments : Arguments

/-- The call that an event is. -/
def Event.call? : Event → Option ResolverCall
  | .called path parent arguments => some ⟨path, parent, arguments⟩
  | _ => none

namespace Event

/-- The failures among some events. -/
def failures (events : List Event) : List GraphQLError := events.filterMap failure?

/-- The calls of resolvers among some events. -/
def calls (events : List Event) : List ResolverCall := events.filterMap call?

end Event

/-- The value at a path, followed through the keys of objects and the indices of lists. -/
def Value.at? : Value → ErrorPath → Option Value
  | value, [] => some value
  | .object entries, .field key :: rest =>
      (Entries.get? entries key).bind fun value => at? value rest
  | .list items, .index i :: rest => items[i]?.bind fun value => at? value rest
  | _, _ :: _ => none

/-- The completed value of a place that absorbs errors where it may be null. -/
def Completed.absorbed (nonNull : Bool) : Completed → Completed
  | .error error => if nonNull then .error error else .ok .null
  | .ok value => .ok value

/-- A place inside a list or an object, with what becomes of it. -/
structure Place (tree : Type) where
  /-- The response key of a field, or the index of an item. -/
  segment : PathSegment
  /-- Whether the type of the field or of the items excludes null. -/
  nonNull : Bool
  /-- The call of the resolver of a field. There is none for items, for `__typename`, for a field
  that is not defined and for one whose arguments fail. -/
  call : Option ResolverCall
  tree : tree

/-- What holds the places of a branch. -/
inductive Shape where
  | list
  | object
deriving DecidableEq, Repr

namespace Shape

/-- The list or object of some values with the segments that lead to them. -/
def value : Shape → List (PathSegment × Value) → Value
  | .list, entries => .list (entries.map Prod.snd)
  | .object, entries => .object (entries.map fun entry => (entry.1.text, entry.2))

/-- The segments of a list are its indices, and those of an object are distinct keys. -/
def Fits : Shape → List PathSegment → Prop
  | .list, segments => segments = (List.range segments.length).map .index
  | .object, segments => ∃ keys : List String, keys.Nodup ∧ segments = keys.map .field

end Shape

/-- What becomes of a place in the response. -/
inductive CompletionTree where
  /-- Completing the place breaks down, and the execution with it. -/
  | broken (why : Abort)
  /-- The place fails. -/
  | failed (error : GraphQLError)
  /-- The place has a value without places inside: null, the name of a type, or the output of a
  scalar or an enum. -/
  | leaf (value : Value)
  /-- The place has places inside. -/
  | branch (shape : Shape) (places : List (Place CompletionTree))

namespace CompletionTree

/-- To prove something of all trees, prove it of a branch from what holds of the trees of its
places. -/
@[elab_as_elim, induction_eliminator]
theorem induction {motive : CompletionTree → Prop} (broken : ∀ why, motive (.broken why))
    (failed : ∀ error, motive (.failed error)) (leaf : ∀ value, motive (.leaf value))
    (branch : ∀ shape places, (∀ place ∈ places, motive place.tree) →
      motive (.branch shape places)) (tree : CompletionTree) : motive tree :=
  -- Of a list of places the recursor is asked for what holds of each of their trees.
  @CompletionTree.rec motive (fun places => ∀ place ∈ places, motive place.tree)
    (fun place => motive place.tree) broken failed leaf branch
    (fun _ hmem => absurd hmem List.not_mem_nil)
    (fun _ _ hhead htail _ hmem => by
      rcases List.mem_cons.mp hmem with rfl | hmem
      · exact hhead
      · exact htail _ hmem)
    (fun _ _ _ _ htree => htree) tree

/-! ### What a tree amounts to -/

mutual

/-- The value of a place, or the error that it leaves to the place around it. -/
def completed : CompletionTree → Completed
  -- A place that breaks down has no value, and no response is made that could hold one.
  | .broken _ => .ok .null
  | .failed error => .error error
  | .leaf value => .ok value
  | .branch shape places => (completedPlaces places).map shape.value
termination_by structural tree => tree

/-- The values of some places, or the first error that one of them leaves. -/
def completedPlaces :
    List (Place CompletionTree) → Except GraphQLError (List (PathSegment × Value))
  | [] => .ok []
  | ⟨segment, nonNull, _, tree⟩ :: rest =>
      match (completed tree).absorbed nonNull with
      | .error error => .error error
      | .ok value => (completedPlaces rest).map ((segment, value) :: ·)
termination_by structural places => places

end

mutual

/-- The errors of the places that fail, in document order. -/
def failures : CompletionTree → List GraphQLError
  | .failed error => [error]
  | .broken _ | .leaf _ => []
  | .branch _ places => failuresAmong places
termination_by structural tree => tree

/-- The errors of the places that fail, at or inside some places. -/
def failuresAmong : List (Place CompletionTree) → List GraphQLError
  | [] => []
  | ⟨_, _, _, tree⟩ :: rest => failures tree ++ failuresAmong rest
termination_by structural places => places

end

mutual

/-- The calls of resolvers inside a place, in document order. -/
def calls : CompletionTree → List ResolverCall
  | .broken _ | .failed _ | .leaf _ => []
  | .branch _ places => callsAmong places
termination_by structural tree => tree

/-- The calls of resolvers at or inside some places. -/
def callsAmong : List (Place CompletionTree) → List ResolverCall
  | [] => []
  | ⟨_, _, call, tree⟩ :: rest => call.toList ++ calls tree ++ callsAmong rest
termination_by structural places => places

end

/-- No place breaks down. -/
inductive IsSound : CompletionTree → Prop
  | failed (error : GraphQLError) : IsSound (.failed error)
  | leaf (value : Value) : IsSound (.leaf value)
  | branch (shape : Shape) {places : List (Place CompletionTree)}
      (h : ∀ place ∈ places, IsSound place.tree) : IsSound (.branch shape places)

end CompletionTree

namespace Place

/-- The value of a place, or the error that it leaves to the list or object around it. -/
def completed (place : Place CompletionTree) : Completed :=
  place.tree.completed.absorbed place.nonNull

/-- A place is completed with the value of an entry, under its own segment. -/
def CompletesTo (place : Place CompletionTree) (entry : PathSegment × Value) : Prop :=
  entry.1 = place.segment ∧ place.completed = .ok entry.2

/-- A value that a place is completed with is that of its tree, or null in place of an error. -/
theorem completed_eq_ok {place : Place CompletionTree} {value : Value}
    (h : place.completed = .ok value) :
    place.tree.completed = .ok value ∨
      place.nonNull = false ∧ value = .null ∧ ∃ error, place.tree.completed = .error error := by
  rw [completed] at h
  cases htree : place.tree.completed with
  | ok inner =>
    rw [htree] at h
    exact .inl h
  | error error =>
    rw [htree] at h
    -- The error has been absorbed, so the place may be null.
    cases hnull : place.nonNull with
    | true => rw [hnull] at h; exact absurd h (by simp [Completed.absorbed])
    | false =>
      rw [hnull] at h
      exact .inr ⟨rfl, (Except.ok.inj h).symm, error, rfl⟩

/-- A place leaves an error exactly if its tree does and it must not be null. -/
theorem completed_error_iff {place : Place CompletionTree} :
    (∃ error, place.completed = .error error) ↔
      place.nonNull = true ∧ ∃ error, place.tree.completed = .error error := by
  rw [completed]
  cases place.tree.completed with
  | ok value => simp [Completed.absorbed]
  | error error => cases place.nonNull <;> simp [Completed.absorbed]

/-- The calls of resolvers at or inside a place. -/
def calls (place : Place CompletionTree) : List ResolverCall :=
  place.call.toList ++ place.tree.calls

end Place

namespace CompletionTree

/-- The first error among some results, or all values. -/
def firstError {α : Type} : List (Except GraphQLError α) → Except GraphQLError (List α)
  | [] => .ok []
  | .error error :: _ => .error error
  | .ok value :: rest => (firstError rest).map (value :: ·)

theorem completedPlaces_cons (place : Place CompletionTree) (rest : List (Place CompletionTree)) :
    completedPlaces (place :: rest) =
      match place.completed with
      | .error error => .error error
      | .ok value => (completedPlaces rest).map ((place.segment, value) :: ·) := rfl

theorem completedPlaces_eq_firstError (places : List (Place CompletionTree)) :
    completedPlaces places =
      firstError (places.map fun place => place.completed.map ((place.segment, ·))) := by
  induction places with
  | nil => rfl
  | cons place rest ih =>
    rw [completedPlaces_cons, ih]
    cases h : place.completed with
    | error error => simp [firstError, h, Except.map]
    | ok value => simp [firstError, h, Except.map]

/-- Places that leave no error have a value each, in order. -/
theorem forall₂_of_completedPlaces {places : List (Place CompletionTree)}
    {entries : List (PathSegment × Value)} (h : completedPlaces places = .ok entries) :
    List.Forall₂ Place.CompletesTo places entries := by
  induction places generalizing entries with
  | nil =>
    obtain rfl := Except.ok.inj h
    exact .nil
  | cons place rest ih =>
    rw [completedPlaces_cons] at h
    cases hplace : place.completed with
    | error error => rw [hplace] at h; exact absurd h (by simp)
    | ok value =>
      rw [hplace] at h
      -- An error of a later place would be left as well.
      cases hrest : completedPlaces rest with
      | error error => rw [hrest] at h; exact absurd h (by simp [Except.map])
      | ok values =>
        rw [hrest] at h
        obtain rfl := Except.ok.inj h
        exact .cons ⟨rfl, hplace⟩ (ih hrest)

theorem map_fst_of_completesTo {places : List (Place CompletionTree)}
    {entries : List (PathSegment × Value)} (h : List.Forall₂ Place.CompletesTo places entries) :
    entries.map Prod.fst = places.map Place.segment := by
  induction h with
  | nil => rfl
  | cons hfirst _ ih => rw [List.map_cons, List.map_cons, hfirst.1, ih]

theorem exists_mem_of_completesTo {places : List (Place CompletionTree)}
    {entries : List (PathSegment × Value)} {place : Place CompletionTree}
    (h : List.Forall₂ Place.CompletesTo places entries) (hmem : place ∈ places) :
    ∃ value, (place.segment, value) ∈ entries ∧ place.completed = .ok value := by
  induction h with
  | nil => exact absurd hmem List.not_mem_nil
  | @cons first entry _ _ hfirst _ ih =>
    rcases List.mem_cons.mp hmem with rfl | hmem
    · exact ⟨entry.2, hfirst.1 ▸ List.mem_cons_self, hfirst.2⟩
    · obtain ⟨value, hvalue, hcompleted⟩ := ih hmem
      exact ⟨value, List.mem_cons_of_mem entry hvalue, hcompleted⟩

/-- A branch that leaves no error holds the values of its places. -/
theorem exists_entries_of_completed {shape : Shape} {places : List (Place CompletionTree)}
    {value : Value} (h : (branch shape places).completed = .ok value) :
    ∃ entries, completedPlaces places = .ok entries ∧ value = shape.value entries := by
  rw [completed] at h
  cases hplaces : completedPlaces places with
  | error error => rw [hplaces] at h; exact absurd h (by simp [Except.map])
  | ok entries =>
    rw [hplaces] at h
    exact ⟨entries, rfl, (Except.ok.inj h).symm⟩

theorem failuresAmong_eq_flatMap (places : List (Place CompletionTree)) :
    failuresAmong places = places.flatMap fun place => place.tree.failures := by
  induction places with
  | nil => rfl
  | cons place rest ih => exact congrArg (place.tree.failures ++ ·) ih

theorem callsAmong_eq_flatMap (places : List (Place CompletionTree)) :
    callsAmong places = places.flatMap Place.calls := by
  induction places with
  | nil => rfl
  | cons place rest ih => exact congrArg (place.calls ++ ·) ih

theorem isSound_branch_iff {shape : Shape} {places : List (Place CompletionTree)} :
    IsSound (.branch shape places) ↔ ∀ place ∈ places, place.tree.IsSound :=
  ⟨fun h => by cases h with | branch _ h => exact h, .branch shape⟩

theorem not_isSound_broken (why : Abort) : ¬ IsSound (.broken why) := fun h => nomatch h

/-- A place without a failure is null only if its tree is the null leaf: lists and objects are not
null. -/
theorem eq_leaf_null_of_completed {tree : CompletionTree} (hsound : tree.IsSound)
    (h : tree.completed = .ok .null) : tree = .leaf .null := by
  cases hsound with
  | failed error => exact absurd h (by simp [completed])
  | leaf value => exact congrArg _ (Except.ok.inj h)
  | branch shape _ =>
    -- The value of a branch is a list or an object.
    obtain ⟨entries, _, hvalue⟩ := exists_entries_of_completed h
    cases shape <;> exact absurd hvalue (by simp [Shape.value])

end CompletionTree

end GraphQL
