import GraphQL.Proofs.Coroutine.Ready
import GraphQL.Proofs.Execution.Answer

/-!
# The order in which errors are recorded

The error of a place is recorded by the nearest place around it that may be null, and not where it
occurs. A run that is over at once therefore records the errors of a tree in an order of its own, which
only the tree decides:

* a field that may be null records its error right after everything inside of it;
* the items of a list that may be null record their errors after everything inside of all items;
* of the errors that places leave to the branch around them all but the first one are recorded by the
  branch, after everything else, and the first one is left.

`CompletionTree.recorded` says so of a tree, `Records` of a run, and `recorded_of_outcome` is the
statement about responses.
-/

open scoped List

namespace GraphQL

open CompletionTree

namespace Shape

variable {α : Type}

/-- What is recorded with each place: the fields of an object take one turn each. -/
def early : Shape → List α → List α
  | .object, errors => errors
  | .list, _ => []

/-- What is recorded after all places: the items of a list wait for each other. -/
def late : Shape → List α → List α
  | .object, _ => []
  | .list, errors => errors

end Shape

namespace Place

/-- The error that a place which may be null takes from its tree. -/
def absorbed (place : Place CompletionTree) : List GraphQLError :=
  if place.nonNull then [] else leftBy place.tree.completed

/-- The error that a place leaves to the branch around it. -/
def left (place : Place CompletionTree) : List GraphQLError := leftBy place.completed

end Place

namespace CompletionTree

mutual

/-- The errors that are recorded inside a place, in order. -/
def recorded : CompletionTree → List GraphQLError
  | .broken _ | .failed _ | .leaf _ => []
  | .branch shape places =>
      recordedAmong shape places ++ places.flatMap (fun place => shape.late place.absorbed) ++
        (places.flatMap Place.left).tail
termination_by structural tree => tree

/-- The errors that are recorded by and inside some places while these take turns. -/
def recordedAmong (shape : Shape) : List (Place CompletionTree) → List GraphQLError
  | [] => []
  | ⟨segment, nonNull, call, tree⟩ :: rest =>
      recorded tree ++ shape.early (Place.absorbed ⟨segment, nonNull, call, tree⟩) ++
        recordedAmong shape rest
termination_by structural places => places

end

end CompletionTree

namespace Place

/-- What is recorded by and inside a place when it takes its turn. -/
def recorded (shape : Shape) (place : Place CompletionTree) : List GraphQLError :=
  place.tree.recorded ++ shape.early place.absorbed

theorem absorbed_append_left (place : Place CompletionTree) :
    place.absorbed ++ place.left = leftBy place.tree.completed := by
  rw [absorbed, left, completed]
  cases place.tree.completed with
  | ok value => cases place.nonNull <;> rfl
  | error error => cases place.nonNull <;> rfl

theorem early_append_late (shape : Shape) {α : Type} (errors : List α) :
    shape.early errors ++ shape.late errors = errors := by
  cases shape with
  | list => rfl
  | object => exact List.append_nil errors

end Place

namespace CompletionTree

theorem recordedAmong_eq_flatMap (shape : Shape) (places : List (Place CompletionTree)) :
    recordedAmong shape places = places.flatMap (Place.recorded shape) := by
  induction places with
  | nil => rfl
  | cons place rest ih => exact congrArg (place.recorded shape ++ ·) ih

theorem errorsOf_map (f : Place CompletionTree → Completed) (places : List (Place CompletionTree)) :
    errorsOf (places.map f) = places.flatMap fun place => leftBy (f place) := by
  rw [Yields.errorsOf_eq_flatMap, List.flatMap_map]

/-- A branch leaves the first of the errors that its places leave. -/
theorem leftBy_completed_branch (shape : Shape) (places : List (Place CompletionTree)) :
    leftBy (branch shape places).completed = (places.flatMap Place.left).head?.toList := by
  have hresults : (places.flatMap fun place => leftBy (place.completed.map fun value =>
      (place.segment, value))) = places.flatMap Place.left :=
    List.flatMap_congr fun place _ => leftBy_map _ place.completed
  rw [completed, leftBy_map, completedPlaces_eq_firstError, firstError_eq,
    Yields.errorsOf_eq_flatMap, List.flatMap_map, hresults]
  cases places.flatMap Place.left <;> rfl

theorem recorded_object (places : List (Place CompletionTree)) :
    (branch .object places).recorded =
      places.flatMap (Place.recorded .object) ++ (places.flatMap Place.left).tail := by
  have hlate : (places.flatMap fun place => Shape.object.late place.absorbed) = [] :=
    List.flatMap_eq_nil_iff.mpr fun _ _ => rfl
  rw [recorded, recordedAmong_eq_flatMap, hlate, List.append_nil]

/-- Items that may be null record all their errors, other ones all but the first. All items of a
list have one type, so either all of them absorb their errors or none does, and then the first one
is left to the list. -/
theorem recorded_list {places : List (Place CompletionTree)} {nonNull : Bool}
    (h : ∀ place ∈ places, place.nonNull = nonNull) :
    (branch .list places).recorded =
      (places.flatMap fun place => place.tree.recorded) ++
        (if nonNull then (errorsOf (places.map fun place => place.tree.completed)).tail
          else errorsOf (places.map fun place => place.tree.completed)) := by
  have hinside : places.flatMap (Place.recorded .list) =
      places.flatMap fun place => place.tree.recorded :=
    List.flatMap_congr fun place _ => List.append_nil place.tree.recorded
  have herrors : errorsOf (places.map fun place => place.tree.completed) =
      places.flatMap fun place => place.absorbed ++ place.left := by
    rw [errorsOf_map]
    exact List.flatMap_congr fun place _ => place.absorbed_append_left.symm
  rw [recorded, recordedAmong_eq_flatMap, hinside, herrors, List.append_assoc]
  cases nonNull with
  | true =>
    -- No item absorbs its error.
    have habsorbed : ∀ place ∈ places, place.absorbed = [] := fun place hmem => by
      rw [Place.absorbed, h place hmem]
      rfl
    have hlate : (places.flatMap fun place => Shape.list.late place.absorbed) = [] :=
      List.flatMap_eq_nil_iff.mpr habsorbed
    have hleft : (places.flatMap fun place => place.absorbed ++ place.left) =
        places.flatMap Place.left :=
      List.flatMap_congr fun place hmem => by rw [habsorbed place hmem, List.nil_append]
    rw [hlate, hleft]
    rfl
  | false =>
    -- No item leaves its error to the list.
    have hleft : ∀ place ∈ places, place.left = [] := fun place hmem => by
      rw [Place.left, Place.completed, h place hmem]
      cases place.tree.completed <;> rfl
    have hnone : places.flatMap Place.left = [] := List.flatMap_eq_nil_iff.mpr hleft
    have hlate : (places.flatMap fun place => place.absorbed ++ place.left) =
        places.flatMap Place.absorbed :=
      List.flatMap_congr fun place hmem => by rw [hleft place hmem, List.append_nil]
    rw [hnone, hlate, List.tail_nil, List.append_nil]
    rfl

end CompletionTree

/-! ### What runs record -/

/-- The run has the result, and if it is over at once it records the errors in this order. -/
structure Records {α : Type} (run : Run α) (result : α) (errors : List GraphQLError) : Prop where
  outcome : run.outcome = .ok result
  recorded : run.isReady = true → run.log.filterMap Event.error? = errors

namespace Records

variable {α β ι : Type} {run : Run α} {result : α} {before after : List GraphQLError}

/-- A result that is there. -/
theorem value (result : α) : Records (.finish [] result) result [] := ⟨rfl, fun _ => rfl⟩

/-- Nothing but the given errors. -/
theorem finish (errors : List GraphQLError) (result : α) :
    Records (.finish (errors.map .recorded) result) result errors :=
  ⟨rfl, fun _ => filterMap_error?_recorded errors⟩

/-- A failure that is not recorded yet. -/
theorem fail (error : GraphQLError) : Records (Completed.fail error) (.error error) [] :=
  ⟨rfl, fun _ => rfl⟩

theorem map (f : α → β) (h : Records run result before) : Records (run.map f) (f result) before where
  outcome := by rw [Coroutine.outcome_map, h.outcome]; rfl
  recorded hready := by
    rw [Coroutine.log_map]
    exact h.recorded (Coroutine.isReady_map f run ▸ hready)

/-- **One after the other.** -/
theorem bind {next : α → Run β} {result' : β} (h : Records run result before)
    (h' : Records (next result) result' after) :
    Records (run.bind next) result' (before ++ after) where
  outcome := by rw [Coroutine.outcome_bind, h.outcome]; exact h'.outcome
  recorded hready := by
    obtain ⟨hfirst, hnext⟩ := (Coroutine.isReady_bind next h.outcome).mp hready
    rw [Coroutine.log_bind next h.outcome, List.filterMap_append, h.recorded hfirst,
      h'.recorded hnext]

/-- **Side by side.** -/
theorem joinAll {members : List ι} {run : ι → Run α} {result : ι → α}
    {errors : ι → List GraphQLError} (h : ∀ i ∈ members, Records (run i) (result i) (errors i)) :
    Records (Coroutine.joinAll (members.map run)) (members.map result)
      (members.flatMap errors) where
  outcome := (Coroutine.Ends.joinAll fun i hi => ⟨(h i hi).outcome, .refl (run i).log⟩).1
  recorded hready := by
    obtain ⟨hall, hlog⟩ := Coroutine.isReady_joinAll (fun i hi => (h i hi).outcome) hready
    rw [hlog, List.filterMap_flatMap]
    exact List.flatMap_congr fun i hi => (h i hi).recorded (hall i hi)

/-- Callbacks record nothing. -/
theorem call {call : Call α} {log : List String} (h : call = .returned log result) :
    Records (call.toCoroutine .said) result [] := by
  rw [h]
  refine ⟨rfl, fun _ => filterMap_error?_of_quiet fun event hmem => ?_⟩
  obtain ⟨text, -, rfl⟩ := List.mem_map.mp hmem
  exact Event.quiet_said text

/-- A run that ends with nothing but events that record nothing. -/
theorem of_ends {events : List Event} (h : run.Ends result events)
    (hevents : events.filterMap Event.error? = []) : Records run result [] :=
  ⟨h.1, fun _ => List.perm_nil.mp (hevents ▸ h.2.filterMap Event.error?)⟩

/-- Siblings none of which may fail record all their errors but the first. -/
theorem gather (results : List (Except GraphQLError α)) :
    Records (GraphQL.gather results) (firstError results) (errorsOf results).tail := by
  rw [GraphQL.gather, firstError_eq]
  cases errorsOf results with
  | nil => exact value _
  | cons first others => exact finish others _

/-- Items that may be null record all their errors. -/
theorem gatherItems (nonNull : Bool) (results : List Completed) :
    Records (Completion.gatherItems nonNull results)
      ((firstError (results.map (Completed.absorbed nonNull))).map .list)
      (if nonNull then (errorsOf results).tail else errorsOf results) := by
  cases nonNull with
  | true =>
    have hresults : results.map (Completed.absorbed true) = results :=
      (List.map_congr_left fun result _ => by cases result <;> rfl).trans (List.map_id results)
    rw [hresults]
    exact (gather results).map _
  | false =>
    rw [firstError_absorbed]
    exact finish _ _

/-- A place that may be null records the error that it is left with. -/
theorem absorb (nonNull : Bool) (completed : Completed) :
    Records (Completed.absorb nonNull completed) (completed.absorbed nonNull)
      (if nonNull then [] else leftBy completed) := by
  cases completed with
  | ok value => cases nonNull <;> exact .value _
  | error error =>
    cases nonNull with
    | true => exact value _
    | false => exact finish [error] _

end Records

/-- The run of a place has the result of the tree, and records what the tree says. -/
def RecordsTree (run : Run Completed) (tree : CompletionTree) : Prop :=
  tree.IsSound → Records run tree.completed tree.recorded

/-- The run of a field has the result of its place, and records what the place says. -/
def RecordsField (run : Run Completed) (place : Place CompletionTree) : Prop :=
  place.tree.IsSound → Records run place.completed (place.recorded .object)

/-- Selections record what their trees say. -/
def SelectRecords (select : Select) (grow : Grow) : Prop :=
  ∀ object selectionSets value path,
    RecordsTree (select object selectionSets value path) (grow object selectionSets value path)

namespace RecordsTree

variable {run : Run Completed} {tree : CompletionTree}

theorem leaf (value : Value) : RecordsTree (.finish [] (.ok value)) (.leaf value) :=
  fun _ => .value _

theorem failed (error : GraphQLError) : RecordsTree (Completed.fail error) (.failed error) :=
  fun _ => .fail error

theorem failure (info : ResolveInfo) (path : QueryPath) (message : String) (code : ErrorCode) :
    RecordsTree (info.fail path message code) (CompletionTree.failure info path message code) :=
  failed _

theorem broken (run : Run Completed) (why : Abort) : RecordsTree run (.broken why) :=
  fun hsound => absurd hsound (not_isSound_broken why)

/-- What records nothing may come first. -/
theorem bind {γ : Type} {before : Run γ} {next : γ → Run Completed} {result : γ}
    (hbefore : Records before result []) (h : RecordsTree (next result) tree) :
    RecordsTree (before.bind next) tree := fun hsound => hbefore.bind (h hsound)

/-- Callbacks that return record nothing, and those that panic make no response. -/
theorem call_bind {γ : Type} {call : Call γ} {next : γ → Run Completed}
    (hreturned : ∀ log result, call = .returned log result → RecordsTree (next result) tree)
    (hpanicked : ∀ log message, call = .panicked log message →
      tree = .broken (.panicked message)) :
    RecordsTree ((call.toCoroutine .said).bind next) tree := by
  cases hcall : call with
  | returned log result => exact .bind (.call rfl) (hreturned log result hcall)
  | panicked log message =>
    rw [hpanicked log message hcall]
    exact broken _ _

theorem requireNull (nonNull : Bool) (info : ResolveInfo) (path : QueryPath) :
    RecordsTree (Completion.requireValue nonNull info path (.ok .null))
      ((CompletionTree.leaf .null).required nonNull info path) := by
  cases nonNull with
  | true => exact failure info path _ _
  | false => exact leaf .null

/-- The null check records nothing. -/
theorem required (nonNull : Bool) (info : ResolveInfo) (path : QueryPath)
    (h : RecordsTree run tree) :
    RecordsTree (run.bind (Completion.requireValue nonNull info path))
      (tree.required nonNull info path) := by
  by_cases htree : tree = .leaf .null
  · subst htree
    exact .bind (h (.leaf _)) (requireNull nonNull info path)
  · rw [required_of_ne htree]
    intro hsound
    -- Errors and other values pass the check as they are.
    have hne : tree.completed ≠ .ok .null := fun hnull =>
      htree (eq_leaf_null_of_completed hsound hnull)
    have hpass : Records (Completion.requireValue nonNull info path tree.completed)
        tree.completed [] := by
      cases hcompleted : tree.completed with
      | error error => exact .value _
      | ok value => cases value <;> first | exact .value _ | exact absurd hcompleted hne
    simpa using (h hsound).bind hpass

/-- A place that may be null records its error after everything inside. -/
theorem absorb (segment : PathSegment) (nonNull : Bool) (call : Option ResolverCall)
    (h : RecordsTree run tree) :
    RecordsField (run.bind (Completed.absorb nonNull)) ⟨segment, nonNull, call, tree⟩ :=
  fun hsound => (h hsound).bind (.absorb nonNull _)

end RecordsTree

end GraphQL
