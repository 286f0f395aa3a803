import GraphQL.Proofs.Execution.Growth

/-!
# How large completions are

A raw value is completed by completing its items, as long as there are lists around the type. What is
completed is never more than what the value is made of.

* `FieldValue.size`, `CompletionTree.size` — how many values there are in a raw value, and how many
  places in a tree;
* `size_ofLayers_le` — the completion of a raw value has no more places outside of objects than the
  value has parts.
-/

namespace GraphQL

/-! ### Sizes -/

mutual

/-- How many values a constant is made of: itself, and what is in its items if it is a list. -/
def Value.size : Value → Nat
  | .list items => Value.sizes items + 1
  | _ => 1

/-- How many values some constants are made of. -/
def Value.sizes : List Value → Nat
  | [] => 0
  | item :: rest => item.size + Value.sizes rest

end

mutual

/-- How many values a raw value is made of: itself, and what is in its items if it is a list. -/
def FieldValue.size : FieldValue → Nat
  | .plain value => value.size
  | .list items => FieldValue.sizes items + 1
  | .source _ _ => 1
  | .typed value _ => FieldValue.size value

/-- How many values some raw values are made of. -/
def FieldValue.sizes : List FieldValue → Nat
  | [] => 0
  | item :: rest => FieldValue.size item + FieldValue.sizes rest

end

namespace CompletionTree

mutual

/-- How many places a tree has, itself included. -/
def size : CompletionTree → Nat
  | .broken _ | .failed _ | .leaf _ => 1
  | .branch _ places => sizes places + 1
termination_by structural tree => tree

/-- How many places there are at or inside some places. -/
def sizes : List (Place CompletionTree) → Nat
  | [] => 0
  | ⟨_, _, _, tree⟩ :: rest => size tree + sizes rest
termination_by structural places => places

end

end CompletionTree

/-! ### Items -/

theorem Value.size_pos (value : Value) : 1 ≤ value.size := by
  cases value with
  | list items => exact Nat.le_add_left _ _
  | _ => exact Nat.le_refl _

theorem FieldValue.size_pos : ∀ value : FieldValue, 1 ≤ value.size
  | .plain value => value.size_pos
  | .list _ => Nat.le_add_left _ _
  | .source _ _ => Nat.le_refl _
  | .typed value _ => FieldValue.size_pos value

theorem FieldValue.size_untyped : ∀ value : FieldValue, value.untyped.size = value.size
  | .typed value _ => FieldValue.size_untyped value
  | .plain _ | .list _ | .source _ _ => rfl

theorem FieldValue.sizes_plain (items : List Value) :
    FieldValue.sizes (items.map .plain) = Value.sizes items := by
  induction items with
  | nil => rfl
  | cons item rest ih => exact congrArg (item.size + ·) ih

/-- A list is made of its items and itself. -/
theorem Completion.size_of_items? {value : FieldValue} {items : List FieldValue}
    (h : items? value = some items) : value.size = FieldValue.sizes items + 1 := by
  -- Whether a value has a type of its own plays no part for its size.
  rw [← FieldValue.size_untyped]
  rw [items?] at h
  split at h
  next found hlist =>
    obtain rfl := Option.some.inj h
    rw [hlist, FieldValue.size]
  next found hlist =>
    obtain rfl := Option.some.inj h
    rw [hlist, FieldValue.size, Value.size, FieldValue.sizes_plain]
  next => cases h

namespace CompletionTree

/-- The induction is on the items; where they are in the list does not matter. -/
theorem sizes_mapIdx_le {items : List FieldValue} {place : Nat → FieldValue → Place CompletionTree}
    (h : ∀ index, ∀ item ∈ items, (place index item).tree.size ≤ item.size) :
    sizes (items.mapIdx place) ≤ FieldValue.sizes items := by
  induction items generalizing place with
  | nil => exact Nat.le_refl _
  | cons item rest ih =>
    rw [List.mapIdx_cons]
    exact Nat.add_le_add (h 0 item List.mem_cons_self)
      (ih fun index other hmem => h (index + 1) other (List.mem_cons_of_mem item hmem))

/-! ### Completions -/

/-- Stands for the trees of objects, whose fields have resolvers of their own. -/
def cut : Grow := fun _ _ _ _ => .leaf .null

variable {ctx : ExecutionContext} {info : ResolveInfo}

theorem size_required (nonNull : Bool) (path : QueryPath) (tree : CompletionTree) :
    (required nonNull info path tree).size = tree.size := by
  by_cases hnull : tree = .leaf .null
  · subst hnull
    cases nonNull <;> rfl
  · rw [required_of_ne hnull]

/-- A value of a named type is a single position if objects are cut off: an abstract type has no
positions but those of the object type that it resolves to, and all other values have none inside.
-/
theorem size_ofNamed (typeName : String) (path : QueryPath) (value : FieldValue) :
    (ofNamed ctx cut typeName info path value).size = 1 := by
  -- Objects are cut off, and so is whatever an abstract type resolves to.
  have hobject : ∀ object, (ofObject cut object info path value).size = 1 := by
    intro object
    simp only [ofObject, cut]
    split
    · rfl
    · split <;> rfl
  have habstract : (ofAbstract ctx cut typeName info path value).size = 1 := by
    simp only [ofAbstract]
    split
    · rfl
    · split
      · exact hobject _
      · rfl
  unfold ofNamed
  split
  · simp only [ofScalar]
    split
    · rfl
    · split <;> rfl
  · simp only [ofEnum]
    split <;> rfl
  · exact hobject _
  · exact habstract
  · exact habstract
  · rfl
  · rfl

/-- **A completion is no larger than its raw value.** The induction is on the list wrappers of the
type. -/
theorem size_ofLayers_le (typeName : String) (innerRequired : Bool) (wrappers : List ListWrapping)
    (path : QueryPath) (value : FieldValue) :
    (ofLayers ctx cut typeName innerRequired info wrappers path value).size ≤ value.size := by
  induction wrappers generalizing path value with
  | nil =>
    rw [ofLayers, size_required]
    -- The value is completed to a single place, and is at least as large.
    split
    · exact value.size_pos
    · rw [size_ofNamed]
      exact value.size_pos
  | cons wrapper inner ih =>
    rw [ofLayers]
    split
    · rw [size_required]
      exact value.size_pos
    · cases hitems : Completion.items? value with
      | none => exact value.size_pos
      | some items =>
        -- Each item is completed to no more than itself, by the induction hypothesis.
        rw [Completion.size_of_items? hitems]
        exact Nat.succ_le_succ (sizes_mapIdx_le fun index item _ => ih (path.index index) item)

end CompletionTree

end GraphQL
