import GraphQL.Proofs.Coroutine.CutShort
import GraphQL.Proofs.Execution.EndingExecutions

/-!
# The number of levels

Objects are executed down to a number of levels, so that executing is defined by a recursion on it. A
request can have operations that would go on for ever, where fragments spread each other in a circle
and a resolver returns one object after the other. Every other execution is over before the levels are
used up, and then their number has made no difference.

This is shown by comparing two numbers of levels. With the smaller one every part of an execution does
the same, or it is cut short where the levels are used up:

* `SelectCut` — what is compared, for selections at any place;
* `executeField_isCutOf`, `executeGroups_isCutOf` — the step lemmas: fields and objects whose nested
  selections are cut are cut themselves, and nothing else about them changes;
* `selectWithin_isCutOf` — the run lemma, by induction on the smaller number of levels;
* `executeWithin_eq_of_settles` — **an execution that is not cut is the same with more levels**;
* `executeWithin_log_isPrefix` — an execution that is cut has made the calls that it would have made first
  with more levels.

`ExecutionContext.executeWithin_eq` is the case of an operation whose fragments are not circular, where
the number of levels that is needed can be told in advance.
-/

namespace GraphQL

open Coroutine

/-- Executing selections in the first way is executing them in the second one, possibly cut short. -/
def SelectCut (select select' : Select) : Prop :=
  ∀ object selectionSets value path,
    (select object selectionSets value path).IsCutOf (select' object selectionSets value path)

namespace Completion

variable {ctx : ExecutionContext} {select select' : Select} (hselect : SelectCut select select')
  (info : ResolveInfo)
include hselect

/-! ### Completing values -/

theorem completeObject_isCutOf (object : ObjectType) (path : QueryPath) (value : FieldValue) :
    (completeObject select object info path value).IsCutOf
      (completeObject select' object info path value) := by
  rw [completeObject, completeObject]
  refine (IsCutOf.refl _).bind fun accepted => ?_
  split
  · exact hselect ..
  · exact .refl _

theorem completeAbstract_isCutOf (abstractType : String) (path : QueryPath) (value : FieldValue) :
    (completeAbstract ctx select abstractType info path value).IsCutOf
      (completeAbstract ctx select' abstractType info path value) := by
  rw [completeAbstract, completeAbstract]
  refine (IsCutOf.refl _).bind fun name => ?_
  split
  · exact completeObject_isCutOf hselect info _ path value
  · exact .refl _

theorem completeNamed_isCutOf (typeName : String) (path : QueryPath) (value : FieldValue) :
    (completeNamed ctx select typeName info path value).IsCutOf
      (completeNamed ctx select' typeName info path value) := by
  rw [completeNamed, completeNamed]
  split
  · exact .refl _
  · exact .refl _
  · exact completeObject_isCutOf hselect info _ path value
  · exact completeAbstract_isCutOf hselect info typeName path value
  · exact completeAbstract_isCutOf hselect info typeName path value
  · exact .refl _
  · exact .refl _

/-- A value against a type. The induction is on the lists around the named type: a list is cut where
one of its items is. -/
theorem completeLayers_isCutOf (typeName : String) (innerRequired : Bool) (layers : List ListWrapping)
    (path : QueryPath) (value : FieldValue) :
    (completeLayers ctx select typeName innerRequired info layers path value).IsCutOf
      (completeLayers ctx select' typeName innerRequired info layers path value) := by
  induction layers generalizing path value with
  | nil =>
    -- No list is left, so that at most the object inside is cut.
    rw [completeLayers, completeLayers]
    split
    · exact .refl _
    · exact (completeNamed_isCutOf hselect info typeName path value).bind fun _ => .refl _
  | cons wrapper inner ih =>
    rw [completeLayers, completeLayers]
    split
    · exact .refl _
    · split
      -- The items are completed side by side, and their results gathered in the same way.
      next items _ =>
        refine IsCutOf.bind (IsCutOf.joinAll ?_) fun _ => .refl _
        rw [List.mapIdx_eq_zipIdx_map, List.mapIdx_eq_zipIdx_map, List.forall₂_map_left_iff,
          List.forall₂_map_right_iff]
        exact List.forall₂_same.mpr fun item _ => ih _ item.1
      next => exact .refl _

end Completion

namespace ExecutionContext

variable {ctx : ExecutionContext} {select select' : Select}

/-! ### Executing fields -/

/-- Before the value of a field is completed nothing depends on its selections. -/
theorem executeField_isCutOf (hselect : SelectCut select select') (object : ObjectType)
    (parent : FieldValue) (path : QueryPath) (key : String) (nodes : List Field) :
    (ctx.executeField select object parent path key nodes).IsCutOf
      (ctx.executeField select' object parent path key nodes) := by
  cases nodes with
  | nil => exact .refl _
  | cons node others =>
    rw [executeField, executeField]
    split
    · exact .refl _
    · cases object.field? node.name with
      | none => exact .refl _
      | some definition =>
        simp only [executeDefined]
        split
        · exact .refl _
        · exact .refl _
        -- The resolver is called alike, and only what it returns is completed with fewer levels.
        · refine (IsCutOf.refl _).bind fun result => IsCutOf.bind ?_ fun _ => .refl _
          cases result with
          | error error => exact .refl _
          | ok value => exact Completion.completeLayers_isCutOf hselect _ _ _ _ _ value

section Groups

variable {execute execute' : String → List Field → Run Completed}
  (h : ∀ key nodes, (execute key nodes).IsCutOf (execute' key nodes))
include h

/-- One after the other. The induction is on the fields. -/
theorem executeInTurn_isCutOf (groups : FieldGroups) :
    (executeInTurn execute groups).IsCutOf (executeInTurn execute' groups) := by
  induction groups with
  | nil => exact .refl _
  | cons group rest ih =>
    rw [executeInTurn, executeInTurn]
    refine (h group.1 group.2).bind fun result => ?_
    cases result with
    | error error => exact .refl _
    | ok value => exact ih.map _

/-- Side by side. -/
theorem executeTogether_isCutOf (groups : FieldGroups) :
    (executeTogether execute groups).IsCutOf (executeTogether execute' groups) := by
  rw [executeTogether, executeTogether]
  refine IsCutOf.bind (IsCutOf.joinAll ?_) fun _ => .refl _
  rw [List.forall₂_map_left_iff, List.forall₂_map_right_iff]
  exact List.forall₂_same.mpr fun group _ => (h group.1 group.2).map _

end Groups

/-- **The fields of an object** are cut where the selections of one of them are. -/
theorem executeGroups_isCutOf (hselect : SelectCut select select') (serial : Bool)
    (object : ObjectType) (parent : FieldValue) (path : QueryPath) (groups : FieldGroups) :
    (ctx.executeGroups select serial object parent path groups).IsCutOf
      (ctx.executeGroups select' serial object parent path groups) := by
  have hfields : ∀ key nodes, (ctx.executeField select object parent path key nodes).IsCutOf
      (ctx.executeField select' object parent path key nodes) :=
    executeField_isCutOf hselect object parent path
  rw [executeGroups, executeGroups]
  refine IsCutOf.map _ ?_
  split
  · exact executeInTurn_isCutOf hfields groups
  · exact executeTogether_isCutOf hfields groups

/-! ### Levels -/

variable {levels levels' : Nat}

/-- **Fewer levels cut selections short, and do nothing else.** -/
theorem selectWithin_isCutOf (h : levels ≤ levels') :
    SelectCut (ctx.selectWithin levels) (ctx.selectWithin levels') := by
  induction levels generalizing levels' with
  | zero => exact fun _ _ _ _ => .cut List.nil_prefix
  | succ levels ih =>
    -- A level is left on the other side as well, and it is the same objects that take one.
    obtain ⟨levels', rfl⟩ := Nat.exists_eq_succ_of_ne_zero (Nat.ne_zero_of_lt h)
    intro object selectionSets value path
    exact executeGroups_isCutOf (ih (Nat.le_of_succ_le_succ h)) false object value path _

theorem executeWithin_isCutOf (h : levels ≤ levels') :
    (ctx.executeWithin levels).IsCutOf (ctx.executeWithin levels') := by
  rw [executeWithin, executeWithin]
  split
  · exact .refl _
  · exact (executeGroups_isCutOf (selectWithin_isCutOf h) _ _ _ _ _).bind fun _ => .refl _

/-- **An execution that is not cut is the same with more levels:** it has the same visits, the same
events and the same result. -/
theorem executeWithin_eq_of_settles (hle : levels ≤ levels') (h : (ctx.executeWithin levels).Settles) :
    ctx.executeWithin levels = ctx.executeWithin levels' :=
  (executeWithin_isCutOf hle).eq_of_settles h

/-- Any two numbers of levels at which an execution is not cut are as good as each other. -/
theorem executeWithin_eq_of_both_settle (h : (ctx.executeWithin levels).Settles)
    (h' : (ctx.executeWithin levels').Settles) :
    ctx.executeWithin levels = ctx.executeWithin levels' := by
  rcases Nat.le_total levels levels' with hle | hge
  · exact executeWithin_eq_of_settles hle h
  · exact (executeWithin_eq_of_settles hge h').symm

/-- An execution that is cut has logged a beginning of what it logs with more levels. -/
theorem executeWithin_log_isPrefix (h : levels ≤ levels') :
    (ctx.executeWithin levels).log <+: (ctx.executeWithin levels').log :=
  (executeWithin_isCutOf h).log_isPrefix

/-- **The limit is never what decides about a response:** an operation that has one is executed in the
same way with any greater number of levels. -/
theorem executeOperation_eq_of_response {response : Response}
    (h : ctx.respond.outcome = .ok response) (hlevels : ctx.depthLimit ≤ levels) :
    ctx.executeWithin levels = ctx.executeOperation := by
  refine (executeWithin_eq_of_settles hlevels fun hendless => ?_).symm
  rw [executeWithin_depthLimit] at hendless
  rw [respond, respondWith_outcome, hendless] at h
  cases h

end ExecutionContext

end GraphQL
