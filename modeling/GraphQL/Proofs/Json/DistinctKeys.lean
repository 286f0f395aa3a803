import GraphQL.Proofs.Value.Equality
import GraphQL.Response

/-!
# Serialized keys that are repeated

Objects of JSON texts may hold a key twice. The objects that the engine makes up itself do not, and those
that come from maps do not either. But extensions of errors are lists, written out entry by entry; so
whether a key of a serialized response is repeated is a question of its data and of these lists.

* `Json.HasDistinctKeys` — no object at any depth holds a key twice;
* `Value.IsWellFormed.hasDistinctKeys` — serialized values whose objects are maps;
* `GraphQLError.hasDistinctKeys_iff`, `GraphQLError.filter_code_visibleExtensions` — serialized errors:
  only attached extensions can be repeated, and `code` is not one of them;
* `Response.hasDistinctKeys_iff` — serialized responses.
-/

namespace GraphQL

namespace Json

/-- No object of the value holds a key twice, at any depth. -/
inductive HasDistinctKeys : Json → Prop
  | null : HasDistinctKeys .null
  | bool (b : Bool) : HasDistinctKeys (.bool b)
  | number (n : Number) : HasDistinctKeys (.number n)
  | string (s : String) : HasDistinctKeys (.string s)
  | array {items : List Json} (h : ∀ item ∈ items, HasDistinctKeys item) : HasDistinctKeys (.array items)
  | object {entries : List (String × Json)} (hkeys : (Entries.keys entries).Nodup)
      (h : ∀ entry ∈ entries, HasDistinctKeys entry.2) : HasDistinctKeys (.object entries)

theorem hasDistinctKeys_array_iff {items : List Json} :
    (array items).HasDistinctKeys ↔ ∀ item ∈ items, item.HasDistinctKeys := by
  refine ⟨fun h => ?_, .array⟩
  cases h with
  | array h => exact h

theorem hasDistinctKeys_object_iff {entries : List (String × Json)} :
    (object entries).HasDistinctKeys ↔
      (Entries.keys entries).Nodup ∧ ∀ entry ∈ entries, entry.2.HasDistinctKeys := by
  refine ⟨fun h => ?_, fun ⟨hkeys, h⟩ => .object hkeys h⟩
  cases h with
  | object hkeys h => exact ⟨hkeys, h⟩

end Json

open Json

/-! ### Values -/

namespace Value

theorem toJsonItems_eq_map (items : List Value) : toJsonItems items = items.map toJson := by
  induction items with
  | nil => rfl
  | cons item rest ih => rw [toJsonItems, ih, List.map_cons]

theorem toJsonEntries_eq_map (entries : List (String × Value)) :
    toJsonEntries entries = entries.map fun entry => (entry.1, entry.2.toJson) := by
  induction entries with
  | nil => rfl
  | cons entry rest ih => rw [toJsonEntries, ih, List.map_cons]

theorem hasDistinctKeys_list_iff {items : List Value} :
    (list items).toJson.HasDistinctKeys ↔ ∀ item ∈ items, item.toJson.HasDistinctKeys := by
  rw [toJson, hasDistinctKeys_array_iff, toJsonItems_eq_map, List.forall_mem_map]

theorem hasDistinctKeys_object_iff {entries : List (String × Value)} :
    (object entries).toJson.HasDistinctKeys ↔
      (Entries.keys entries).Nodup ∧ ∀ entry ∈ entries, entry.2.toJson.HasDistinctKeys := by
  rw [toJson, Json.hasDistinctKeys_object_iff, toJsonEntries_eq_map, List.forall_mem_map, Entries.keys_map]

/-- **Maps have distinct keys**, and so have the values that are made of them. -/
theorem IsWellFormed.hasDistinctKeys {value : Value} (h : value.IsWellFormed) :
    value.toJson.HasDistinctKeys := by
  induction h with
  | null => exact .null
  | bool b => exact .bool b
  | number _ => exact .number _
  | string s => exact .string s
  | enum name => exact .string name
  | list _ ih => exact hasDistinctKeys_list_iff.mpr ih
  | object hkeys _ ih => exact hasDistinctKeys_object_iff.mpr ⟨hkeys, ih⟩
  | binary bytes =>
    -- Bytes are written as numbers.
    refine .array fun item hmem => ?_
    obtain ⟨byte, -, rfl⟩ := List.mem_map.mp hmem
    exact .number _

end Value

/-! ### Errors -/

theorem Location.hasDistinctKeys (location : Location) : location.toJson.HasDistinctKeys := by
  refine .object ?_ (List.forall_mem_cons.mpr ⟨.number _, List.forall_mem_singleton.mpr (.number _)⟩)
  change ["line", "column"].Nodup
  decide

theorem ErrorPath.hasDistinctKeys (path : ErrorPath) : (ErrorPath.toJson path).HasDistinctKeys := by
  refine .array fun item hmem => ?_
  obtain ⟨segment, -, rfl⟩ := List.mem_map.mp hmem
  cases segment with
  | field key => exact .string key
  | index i => exact .number _

namespace GraphQLError

variable {error : GraphQLError}

/-- The extensions that are attached to an error and shown to clients, which are all but `code`, have
distinct keys, and so have their values. -/
structure HasDistinctExtensions (error : GraphQLError) : Prop where
  keys : (Entries.keys (error.extensions.filter fun entry => entry.1 != "code")).Nodup
  values : ∀ entry ∈ error.extensions, entry.1 ≠ "code" → entry.2.HasDistinctKeys

/-- **The only `code` is that of the engine.** It is the last extension that is shown, whatever is
attached. -/
theorem filter_code_visibleExtensions (error : GraphQLError) :
    error.visibleExtensions.filter (fun entry => entry.1 == "code") =
      [("code", .string error.code.name)] := by
  have hnone : (error.extensions.filter fun entry => entry.1 != "code").filter
      (fun entry => entry.1 == "code") = [] := by
    refine List.filter_eq_nil_iff.mpr fun entry hmem heq => ?_
    have hne := (List.mem_filter.mp hmem).2
    rw [bne, heq] at hne
    exact Bool.false_ne_true hne
  rw [visibleExtensions, List.filter_append, hnone]
  rfl

/-- What clients see as extensions has distinct keys if what is attached has: the `code` that is put last
is no second one. -/
theorem hasDistinctKeys_visibleExtensions_iff :
    (Json.object error.visibleExtensions).HasDistinctKeys ↔ error.HasDistinctExtensions := by
  -- An attached `code` is left out, so the one that is put last is the only one.
  have hcode : "code" ∉ Entries.keys (error.extensions.filter fun entry => entry.1 != "code") := by
    intro hmem
    obtain ⟨entry, hentry, hkey⟩ := List.mem_map.mp hmem
    exact bne_iff_ne.mp (List.mem_filter.mp hentry).2 hkey
  -- Its key is therefore distinct from the others anyway.
  have hkeys : (Entries.keys error.visibleExtensions).Nodup ↔
      (Entries.keys (error.extensions.filter fun entry => entry.1 != "code")).Nodup := by
    rw [visibleExtensions, Entries.keys, List.map_append]
    refine ⟨fun h => (List.nodup_append'.mp h).1, fun h => List.nodup_append'.mpr ⟨h, ?_, ?_⟩⟩
    · exact List.nodup_singleton "code"
    · exact List.disjoint_singleton.mpr hcode
  -- Its value is a text, so nothing is asked of it either.
  have hvalues : (∀ entry ∈ error.visibleExtensions, entry.2.HasDistinctKeys) ↔
      ∀ entry ∈ error.extensions, entry.1 ≠ "code" → entry.2.HasDistinctKeys := by
    rw [visibleExtensions, List.forall_mem_append]
    constructor
    · exact fun h entry hmem hne => h.1 entry (List.mem_filter.mpr ⟨hmem, bne_iff_ne.mpr hne⟩)
    · refine fun h => ⟨fun entry hmem => ?_, List.forall_mem_singleton.mpr (.string _)⟩
      obtain ⟨hmem, hne⟩ := List.mem_filter.mp hmem
      exact h entry hmem (bne_iff_ne.mp hne)
  rw [hasDistinctKeys_object_iff, hkeys, hvalues]
  exact ⟨fun h => ⟨h.1, h.2⟩, fun h => ⟨h.keys, h.values⟩⟩

/-- **A serialized error repeats a key only among its extensions.** -/
theorem hasDistinctKeys_iff : error.toJson.HasDistinctKeys ↔ error.HasDistinctExtensions := by
  have hlocations : (Json.array (error.locations.map Location.toJson)).HasDistinctKeys := by
    rw [hasDistinctKeys_array_iff, List.forall_mem_map]
    exact fun location _ => location.hasDistinctKeys
  rw [← hasDistinctKeys_visibleExtensions_iff, toJson, hasDistinctKeys_object_iff]
  -- The locations and the path are there or not, but each of them once at most.
  cases error.locations.isEmpty <;> cases error.path with
  | none =>
    simp [Entries.keys, hlocations, HasDistinctKeys.string]
  | some path =>
    simp [Entries.keys, hlocations, HasDistinctKeys.string, ErrorPath.hasDistinctKeys path]

end GraphQLError

/-! ### Responses -/

namespace Response

variable {response : Response}

/-- **A serialized response repeats a key only in its data and among the extensions of its errors.** -/
theorem hasDistinctKeys_iff : response.toJson.HasDistinctKeys ↔
    response.data.toJson.HasDistinctKeys ∧ ∀ error ∈ response.errors, error.HasDistinctExtensions := by
  have herrors : (Json.array (response.errors.map GraphQLError.toJson)).HasDistinctKeys ↔
      ∀ error ∈ response.errors, error.HasDistinctExtensions := by
    rw [hasDistinctKeys_array_iff, List.forall_mem_map]
    exact forall₂_congr fun error _ => GraphQLError.hasDistinctKeys_iff
  rw [toJson, hasDistinctKeys_object_iff]
  -- Without errors there is only the data.
  cases hempty : response.errors.isEmpty with
  | true =>
    rw [List.isEmpty_iff.mp hempty]
    simp [Entries.keys]
  | false => simp [Entries.keys, herrors]

end Response

end GraphQL
