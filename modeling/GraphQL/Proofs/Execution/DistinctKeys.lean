import GraphQL.Proofs.Execution.ErrorConservation
import GraphQL.Proofs.Execution.GrownTrees
import GraphQL.Proofs.Execution.Nulls
import GraphQL.Proofs.Json.DistinctKeys

/-!
# Keys of the responses of executions

The objects of the data have the response keys that are collected for their fields, each once. What scalars,
enums and `__typename` put out stands in between as it is. So the serialized data repeats a key only
inside of such an output, and a serialized response otherwise only where extensions that are attached to an
error do. Exposing causes does not add to that.

* `GraphQLError.hasDistinctExtensions_exposeCause_iff` — exposing a cause repeats no key;
* `CompletionTree.Shows`, `CompletionTree.hasDistinctKeys_iff` — outputs that stand in the data, and that
  nothing else of it can repeat a key;
* `Response.HasOutput`, `Response.RepeatsAttachedOnly` — what can be repeated in a response;
* `ExecutionContext.repeatsAttachedOnly` — the responses of executions.
-/

namespace GraphQL

/-! ### Causes -/

/-- **Exposing a cause repeats no key**, and hides no repetition. -/
theorem GraphQLError.hasDistinctExtensions_exposeCause_iff (error : GraphQLError) :
    error.exposeCause.HasDistinctExtensions ↔ error.HasDistinctExtensions := by
  -- Repetitions among the keys and within the values are told apart, leaving the code out.
  have hparts (other : GraphQLError) : other.HasDistinctExtensions ↔
      (Entries.keys (other.extensions.filter fun entry => entry.1 != "code")).Nodup ∧
        ∀ entry ∈ other.extensions, entry.1 ≠ "code" → entry.2.HasDistinctKeys :=
    ⟨fun h => ⟨h.keys, h.values⟩, fun h => ⟨h.1, h.2⟩⟩
  rw [hparts, hparts]
  rcases error.extensions_exposeCause with hsame | ⟨hown, text, -, hexposed⟩
  · rw [hsame]
  -- The cause is only exposed if no extension has that name.
  · have hnew : "cause" ∉ Entries.keys (error.extensions.filter fun entry => entry.1 != "code") := by
      intro hmem
      obtain ⟨entry, hentry, hkey⟩ := List.mem_map.mp hmem
      exact List.any_eq_false.mp hown entry (List.mem_filter.mp hentry).1 (beq_iff_eq.mpr hkey)
    have hfilter : ([("cause", .string text)] : List (String × Json)).filter
        (fun entry => entry.1 != "code") = [("cause", .string text)] := rfl
    rw [hexposed, List.filter_append, hfilter, List.forall_mem_append, Entries.keys, List.map_append]
    refine and_congr ⟨fun h => (List.nodup_append'.mp h).1, fun h => ?_⟩ ⟨And.left, fun h => ⟨h, ?_⟩⟩
    · exact List.nodup_append'.mpr ⟨h, List.nodup_singleton "cause", List.disjoint_singleton.mpr hnew⟩
    · exact List.forall_mem_singleton.mpr fun _ => .string text

/-! ### Data -/

namespace CompletionTree

variable {tree : CompletionTree} {place : Place CompletionTree} {base : ErrorPath} {data value : Value}

/-- A leaf of the tree with the value stands in the data. -/
def Shows (tree : CompletionTree) (data value : Value) : Prop :=
  ∃ path, tree.subtree? path = some (.leaf value) ∧ data.at? path = some value

/-- What stands in null is null. -/
theorem Shows.eq_null (h : tree.Shows .null value) : value = .null := by
  obtain ⟨path, -, hat⟩ := h
  cases path with
  | nil => exact (Option.some.inj hat).symm
  | cons segment rest => exact absurd hat (by simp [Value.at?])

/-- What stands in the value of a branch stands in that of one of its places. -/
theorem shows_branch_iff {shape : Shape} {places : List (Place CompletionTree)}
    (h : Grown base (.branch shape places)) (hdata : (branch shape places).completed = .ok data) :
    (branch shape places).Shows data value ↔
      ∃ place ∈ places, ∃ inner, place.completed = .ok inner ∧ place.tree.Shows inner value := by
  constructor
  · rintro ⟨path, hleaf, hat⟩
    cases path with
    | nil => exact absurd hleaf (by simp [subtree?])
    -- The first segment finds a place, and the value is in what that place completes to.
    | cons segment rest =>
      rw [subtree?, Option.bind_eq_some_iff] at hleaf
      obtain ⟨place, hchild, hleaf⟩ := hleaf
      obtain ⟨inner, hinner, hfound⟩ := exists_value_of_child? h hdata hchild
      exact ⟨place, (mem_of_child? hchild).1, inner, hinner, rest, hleaf, hfound rest ▸ hat⟩
  -- The place is found by its segment, and completes to one value.
  · rintro ⟨place, hmem, inner, hinner, path, hleaf, hat⟩
    have hchild := h.child?_of_mem hmem
    obtain ⟨found, hfound, hrest⟩ := exists_value_of_child? h hdata hchild
    obtain rfl := Except.ok.inj (hinner.symm.trans hfound)
    exact ⟨place.segment :: path, by rw [subtree?_cons hchild, hleaf], by rw [hrest, hat]⟩

/-- The values of a branch are those of its places, and the keys of an object are distinct. That
they are distinct was seen to when fields were collected, so all that can repeat a key is what
stands inside of one of the places. -/
theorem hasDistinctKeys_branch_iff {shape : Shape} {places : List (Place CompletionTree)}
    (h : Grown base (.branch shape places)) (hdata : (branch shape places).completed = .ok data) :
    data.toJson.HasDistinctKeys ↔
      ∀ place ∈ places, ∀ inner, place.completed = .ok inner → inner.toJson.HasDistinctKeys := by
  obtain ⟨entries, hentries, rfl⟩ := exists_entries_of_completed hdata
  have hplaces := forall₂_of_completedPlaces hentries
  -- One by one, the entries are what the places complete to.
  have hall : (∀ entry ∈ entries, entry.2.toJson.HasDistinctKeys) ↔
      ∀ place ∈ places, ∀ inner, place.completed = .ok inner → inner.toJson.HasDistinctKeys := by
    clear hentries hdata h
    induction hplaces with
    | nil => simp
    | @cons place entry _ _ hfirst _ ih =>
      rw [List.forall_mem_cons, List.forall_mem_cons, ih, hfirst.2]
      refine and_congr_left' ⟨fun h inner hinner => Except.ok.inj hinner ▸ h, fun h => h entry.2 rfl⟩
  have hfits : shape.Fits (entries.map Prod.fst) := by
    rw [map_fst_of_completesTo hplaces]
    cases h with
    | branch hfits _ _ => exact hfits
  rw [← hall]
  cases shape with
  | list => rw [Shape.value, Value.hasDistinctKeys_list_iff, List.forall_mem_map]
  -- The keys of an object are those that were collected, which are distinct.
  | object =>
    rw [Shape.value, Value.hasDistinctKeys_object_iff, List.forall_mem_map]
    refine and_iff_right ?_
    obtain ⟨keys, hnodup, hkeys⟩ := hfits
    have htexts : Entries.keys (entries.map fun entry => (entry.1.text, entry.2)) = keys := by
      have htext := congrArg (List.map PathSegment.text) hkeys
      rw [List.map_map, List.map_map] at htext
      rw [Entries.keys, List.map_map]
      exact htext.trans (List.map_id' keys)
    rw [htexts]
    exact hnodup

/-- **The data of a tree repeats a key only inside of what its leaves put out.** The induction is on the
tree; a place that absorbs an error is null. -/
theorem hasDistinctKeys_iff (h : Grown base tree) (hdata : tree.completed = .ok data) :
    data.toJson.HasDistinctKeys ↔ ∀ value, tree.Shows data value → value.toJson.HasDistinctKeys := by
  have hnull {other : CompletionTree} : (Value.null).toJson.HasDistinctKeys ↔
      ∀ value, other.Shows .null value → value.toJson.HasDistinctKeys :=
    iff_of_true .null fun value hshows => hshows.eq_null ▸ .null
  induction tree generalizing base data with
  | broken why =>
    -- A tree that is broken is completed to null, in which nothing repeats.
    obtain rfl := Except.ok.inj hdata
    exact hnull
  | failed error => exact absurd hdata (by simp [completed])
  -- A leaf is its own only leaf.
  | leaf value =>
    obtain rfl := Except.ok.inj hdata
    refine ⟨fun hvalue other hshows => ?_, fun hshows => hshows value ⟨[], rfl, rfl⟩⟩
    obtain ⟨path, hleaf, -⟩ := hshows
    have hnone : (leaf value).places = [] := rfl
    obtain ⟨-, heq⟩ := (subtree?_eq_some_iff hnone).mp hleaf
    obtain rfl := CompletionTree.leaf.inj heq
    exact hvalue
  | branch shape places ih =>
    have hplace : ∀ place ∈ places, ∀ inner, place.completed = .ok inner →
        (inner.toJson.HasDistinctKeys ↔
          ∀ value, place.tree.Shows inner value → value.toJson.HasDistinctKeys) := by
      -- What a place completes to is what its tree does, unless it takes an error and is null.
      intro place hmem inner hinner
      rcases Place.completed_eq_ok hinner with htree | ⟨-, rfl, -⟩
      · exact ih place hmem (h.child (h.child?_of_mem hmem)) htree
      · exact hnull
    rw [hasDistinctKeys_branch_iff h hdata]
    simp only [shows_branch_iff h hdata]
    constructor
    · rintro hall value ⟨place, hmem, inner, hinner, hshows⟩
      exact (hplace place hmem inner hinner).mp (hall place hmem inner hinner) value hshows
    · intro hall place hmem inner hinner
      exact (hplace place hmem inner hinner).mpr fun value hshows =>
        hall value ⟨place, hmem, inner, hinner, hshows⟩

end CompletionTree

/-! ### Responses -/

/-- The response is that of an execution for the schema, and the value is what a scalar, an enum or
`__typename` has put out at its place in the data. -/
def Response.HasOutput (schema : Schema) (response : Response) (value : Value) : Prop :=
  ∃ ctx : ExecutionContext, ctx.schema = schema ∧ ctx.respond.outcome = .ok response ∧
    ctx.reachedTree.Shows response.data value

/-- What can be repeated in a serialized response:
* a key, only inside of an output or among the extensions of an error;
* no `code`, since every error has that of the engine and no other;
* nothing that is not repeated anyway, if causes are exposed. -/
structure Response.RepeatsAttachedOnly (schema : Schema) (response : Response) : Prop where
  distinct_iff : response.toJson.HasDistinctKeys ↔
    (∀ value, response.HasOutput schema value → value.toJson.HasDistinctKeys) ∧
      ∀ error ∈ response.errors, error.HasDistinctExtensions
  code : ∀ error ∈ response.errors,
    error.visibleExtensions.filter (fun entry => entry.1 == "code") =
      [("code", .string error.code.name)]
  exposed_iff : ∀ expose,
    (response.withExposedCauses expose).toJson.HasDistinctKeys ↔ response.toJson.HasDistinctKeys

namespace Response

/-- Exposing the causes of all errors repeats no key. -/
theorem hasDistinctKeys_withExposedCauses_iff (response : Response) (expose : Bool) :
    (response.withExposedCauses expose).toJson.HasDistinctKeys ↔ response.toJson.HasDistinctKeys := by
  cases expose with
  | false => rfl
  | true =>
    rw [hasDistinctKeys_iff, hasDistinctKeys_iff]
    refine and_congr_right fun _ => ?_
    change (∀ error ∈ response.errors.map GraphQLError.exposeCause, _) ↔ _
    rw [List.forall_mem_map]
    exact forall₂_congr fun error _ => error.hasDistinctExtensions_exposeCause_iff

/-- It is enough to know when the data repeats no key. -/
theorem repeatsAttachedOnly_of_data {schema : Schema} {response : Response}
    (h : response.data.toJson.HasDistinctKeys ↔
      ∀ value, response.HasOutput schema value → value.toJson.HasDistinctKeys) :
    response.RepeatsAttachedOnly schema where
  distinct_iff := by rw [hasDistinctKeys_iff, h]
  code error _ := error.filter_code_visibleExtensions
  exposed_iff expose := response.hasDistinctKeys_withExposedCauses_iff expose

end Response

namespace ExecutionContext

variable {ctx : ExecutionContext} {response : Response}

/-- The data of an execution repeats a key only inside of the outputs. -/
theorem hasDistinctKeys_data_iff (h : ctx.respond.outcome = .ok response) :
    response.data.toJson.HasDistinctKeys ↔
      ∀ value, ctx.reachedTree.Shows response.data value → value.toJson.HasDistinctKeys := by
  rw [(answer_of_outcome h).data]
  cases hcompleted : ctx.reachedTree.completed with
  | ok data => exact CompletionTree.hasDistinctKeys_iff reachedTree_grown hcompleted
  | error error => exact iff_of_true .null fun value hshows => hshows.eq_null ▸ .null

/-- **The responses of executions.** -/
theorem repeatsAttachedOnly (h : ctx.respond.outcome = .ok response) :
    response.RepeatsAttachedOnly ctx.schema := by
  refine Response.repeatsAttachedOnly_of_data ⟨fun hdata value => ?_, fun houtput => ?_⟩
  · rintro ⟨other, -, hother, hshows⟩
    exact (hasDistinctKeys_data_iff hother).mp hdata value hshows
  · exact (hasDistinctKeys_data_iff h).mpr fun value hshows => houtput value ⟨ctx, rfl, h, hshows⟩

/-- Responses without data. -/
theorem repeatsAttachedOnly_of_null {schema : Schema} (hnull : response.data = .null) :
    response.RepeatsAttachedOnly schema := by
  refine Response.repeatsAttachedOnly_of_data (iff_of_true (hnull ▸ .null) ?_)
  rintro value ⟨other, -, -, hshows⟩
  rw [hnull] at hshows
  exact hshows.eq_null ▸ .null

end ExecutionContext

end GraphQL
