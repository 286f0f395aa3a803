import GraphQL.Proofs.Document.Inlining
import GraphQL.Proofs.Execution.Collection

/-!
# Repeated nodes

Groups of fields in which nodes occur more often than in other groups, though never before all other
nodes in front of them. The keys and their order are the same then, and so is the first node of
every group.

* `Repeats` — a list and the images of its elements, some of them repeated later on;
* `Repeats.head?_eq`, `Repeats.map` — the first element is the same, and what is read off the
  elements is repeated like them;
* `FieldGroups.RepeatIn` — groups of fields that agree up to repetitions, where the second ones have
  their fragments written out;
* `RepeatIn.fresh`, `RepeatIn.again` — adding a field on both sides, or one that is there already on
  the second side, keeps them in agreement.
-/

namespace GraphQL

/-! ### Repetitions -/

/-- A list and the images of its elements, in order, where images may be repeated later on. -/
inductive Repeats {α β : Type} (f : α → β) : List α → List β → Prop
  | nil : Repeats f [] []
  | fresh {as : List α} {bs : List β} (a : α) (h : Repeats f as bs) :
      Repeats f (as ++ [a]) (bs ++ [f a])
  | again {as : List α} {bs : List β} {b : β} (h : Repeats f as bs) (hmem : b ∈ bs) :
      Repeats f as (bs ++ [b])

namespace Repeats

variable {α β γ δ : Type} {f : α → β} {as : List α} {bs : List β}

/-- The first one is never a repetition. -/
theorem head?_eq (h : Repeats f as bs) : bs.head? = as.head?.map f := by
  induction h with
  | nil => rfl
  | fresh a _ ih =>
    rw [List.head?_append, List.head?_append, ih]
    cases List.head? _ <;> rfl
  | again h hmem ih =>
    rw [List.head?_append_of_ne_nil _ (List.ne_nil_of_mem hmem), ih]

/-- Corresponding parts of the elements are repeated like the elements. -/
theorem map {g : α → γ} {g' : β → δ} {f' : γ → δ} (hcomm : ∀ a, g' (f a) = f' (g a))
    (h : Repeats f as bs) : Repeats f' (as.map g) (bs.map g') := by
  induction h with
  | nil => exact .nil
  | fresh a _ ih =>
    rw [List.map_append, List.map_append, List.map_singleton, List.map_singleton, hcomm]
    exact ih.fresh (g a)
  | again _ hmem ih =>
    rw [List.map_append, List.map_singleton]
    exact ih.again (List.mem_map_of_mem hmem)

end Repeats

/-! ### Groups -/

namespace FieldGroups

variable {groups groups' : FieldGroups} {field : Field}

/-- Adds a field to the group of its response key. -/
def add (groups : FieldGroups) (field : Field) : FieldGroups :=
  Entries.insert groups field.responseKey
    ((Entries.get? groups field.responseKey).getD [] ++ [field])

/-- Adds fields one after the other. -/
def addAll (groups : FieldGroups) (fields : List Field) : FieldGroups := fields.foldl add groups

@[simp] theorem addAll_nil : addAll groups [] = groups := rfl

@[simp] theorem addAll_append (fields fields' : List Field) :
    addAll groups (fields ++ fields') = addAll (addAll groups fields) fields' :=
  List.foldl_append

/-- A field is in the group of its response key. -/
def Contains (groups : FieldGroups) (field : Field) : Prop :=
  ∃ nodes, Entries.get? groups field.responseKey = some nodes ∧ field ∈ nodes

theorem contains_add_self : (groups.add field).Contains field :=
  ⟨_, Entries.get?_insert_self _ _ _, List.mem_append_right _ List.mem_cons_self⟩

theorem Contains.add (h : groups.Contains field) (other : Field) :
    (groups.add other).Contains field := by
  obtain ⟨nodes, hget, hmem⟩ := h
  by_cases hkey : other.responseKey = field.responseKey
  · refine ⟨nodes ++ [other], ?_, List.mem_append_left _ hmem⟩
    rw [FieldGroups.add, hkey, Entries.get?_insert_self, hget, Option.getD_some]
  · exact ⟨nodes, by rw [FieldGroups.add, Entries.get?_insert_of_ne _ _ hkey, hget], hmem⟩

theorem Contains.addAll (h : groups.Contains field) (fields : List Field) :
    (groups.addAll fields).Contains field := by
  induction fields generalizing groups with
  | nil => exact h
  | cons other rest ih => exact ih (h.add other)

theorem contains_addAll_of_mem {fields : List Field} (hmem : field ∈ fields) :
    (groups.addAll fields).Contains field := by
  induction fields generalizing groups with
  | nil => exact absurd hmem List.not_mem_nil
  | cons other rest ih =>
    rcases List.mem_cons.mp hmem with rfl | hrest
    · exact contains_add_self.addAll rest
    · exact ih hrest

/-- Everything in the groups that are built up from nothing has been added. -/
theorem forall_mem_addAll {P : Field → Prop} {fields : List Field}
    (hgroups : ∀ group ∈ groups, ∀ node ∈ group.2, P node) (hfields : ∀ field ∈ fields, P field) :
    ∀ group ∈ groups.addAll fields, ∀ node ∈ group.2, P node := by
  induction fields generalizing groups with
  | nil => exact hgroups
  | cons field rest ih =>
    refine ih ?_ fun other hmem => hfields other (List.mem_cons_of_mem _ hmem)
    intro group hgroup node hnode
    -- The group may be the one that the field is added to, and then the node is an old or the new
    -- one.
    rcases Entries.mem_insert hgroup with rfl | hgroup
    · rcases List.mem_append.mp hnode with hknown | hnew
      · cases hget : Entries.get? groups field.responseKey with
        | none => simp [hget] at hknown
        | some nodes =>
          rw [hget, Option.getD_some] at hknown
          exact hgroups _ (Entries.get?_mem hget) node hknown
      · rw [List.mem_singleton.mp hnew]
        exact hfields field List.mem_cons_self
    · exact hgroups group hgroup node hnode

/-- The same keys in the same order, with the nodes of the first groups inlined in the second ones
and some of them repeated. -/
def RepeatIn (fragments : Entries FragmentDefinition) (groups groups' : FieldGroups) : Prop :=
  List.Forall₂ (fun group group' =>
    group.1 = group'.1 ∧ Repeats (FieldNode.inlined fragments) group.2 group'.2) groups groups'

section RepeatIn

variable {fragments : Entries FragmentDefinition}

/-- The groups under a key agree up to repetitions, or neither side has one. -/
theorem RepeatIn.get? (h : RepeatIn fragments groups groups') (key : String) :
    Option.Rel (Repeats (FieldNode.inlined fragments)) (Entries.get? groups key)
      (Entries.get? groups' key) := by
  induction h with
  | nil => exact .none
  | @cons group group' _ _ hfirst _ ih =>
    obtain ⟨key', nodes⟩ := group
    obtain ⟨_, nodes'⟩ := group'
    obtain ⟨rfl, hnodes⟩ := hfirst
    -- The two groups have one key, so that they are found by the same name.
    rw [Entries.get?, Entries.get?]
    split
    · exact .some hnodes
    · exact ih

/-- A group is replaced on both sides. -/
theorem RepeatIn.insert (h : RepeatIn fragments groups groups') (key : String)
    {nodes nodes' : List Field} (hnodes : Repeats (FieldNode.inlined fragments) nodes nodes') :
    RepeatIn fragments (Entries.insert groups key nodes) (Entries.insert groups' key nodes') := by
  induction h with
  | nil => exact .cons ⟨rfl, hnodes⟩ .nil
  | @cons group group' _ _ hfirst hrest ih =>
    obtain ⟨key', known⟩ := group
    obtain ⟨_, known'⟩ := group'
    obtain ⟨rfl, hknown⟩ := hfirst
    rw [Entries.insert, Entries.insert]
    -- They are replaced on both sides, or passed over on both.
    split
    · exact .cons ⟨rfl, hnodes⟩ hrest
    · exact .cons ⟨rfl, hknown⟩ ih

/-- A field is added on one side, and inlined on the other. -/
theorem RepeatIn.fresh (h : RepeatIn fragments groups groups') (node : Field) :
    RepeatIn fragments (groups.add node) (groups'.add (node.inlined fragments)) := by
  -- Both sides know the key, or neither does.
  have hknown : Repeats (FieldNode.inlined fragments)
      ((Entries.get? groups node.responseKey).getD [])
      ((Entries.get? groups' node.responseKey).getD []) := by
    have hget := h.get? node.responseKey
    revert hget
    generalize Entries.get? groups node.responseKey = nodes
    generalize Entries.get? groups' node.responseKey = nodes'
    intro hget
    cases hget with
    | none => exact .nil
    | some hnodes => exact hnodes
  rw [FieldGroups.add, FieldGroups.add, FieldNode.inlined_responseKey]
  exact h.insert node.responseKey (hknown.fresh node)

/-- A field that is there already is repeated. -/
theorem RepeatIn.again (h : RepeatIn fragments groups groups')
    (hcontains : groups'.Contains field) : RepeatIn fragments groups (groups'.add field) := by
  obtain ⟨nodes', hget', hmem⟩ := hcontains
  obtain ⟨nodes, hget, hnodes⟩ : ∃ nodes, Entries.get? groups field.responseKey = some nodes ∧
      Repeats (FieldNode.inlined fragments) nodes nodes' := by
    have hrel := h.get? field.responseKey
    rw [hget'] at hrel
    cases hget : Entries.get? groups field.responseKey with
    | none => rw [hget] at hrel; cases hrel
    | some nodes =>
      rw [hget] at hrel
      cases hrel with
      | some hnodes => exact ⟨nodes, rfl, hnodes⟩
  -- On the first side the group is left as it is.
  rw [← Entries.insert_of_get? hget, FieldGroups.add, hget', Option.getD_some]
  exact h.insert field.responseKey (hnodes.again hmem)

theorem RepeatIn.againAll (h : RepeatIn fragments groups groups') {fields : List Field}
    (hcontains : ∀ field ∈ fields, groups'.Contains field) :
    RepeatIn fragments groups (groups'.addAll fields) := by
  induction fields generalizing groups' with
  | nil => exact h
  | cons field rest ih =>
    exact ih (h.again (hcontains field List.mem_cons_self)) fun other hmem =>
      (hcontains other (List.mem_cons_of_mem _ hmem)).add field

end RepeatIn

end FieldGroups

end GraphQL
