import GraphQL.Entries
import GraphQL.Filed
import Mathlib.Data.List.Nodup

/-!
# Entries with distinct keys

Maps are lists of entries in the order in which their keys came. Most of what is proved of them
needs the keys to be distinct, and the operations see to it that they are.

* `Entries.get?_of_mem` — with distinct keys, looking a key up finds its entry;
* `Entries.ofPairs_eq_self` — pairs with distinct keys are inserted as they are;
* `Entries.ofPairs_eq_of_sublist` — so are pairs whose keys are names of definitions, in their order;
* `Entries.get?_map`, `Entries.swapErase_map` — changing the values keeps the keys where they are;
* `Entries.get?_modify`, `Entries.modify_map` — changing the value under one key;
* `Entries.swapErase_perm_erase` — the two ways to remove a key leave the same entries.
-/

namespace GraphQL

namespace Entries

universe u v

variable {α : Type u} {β : Type v} {entries : Entries α} {key : String} {value : α}

theorem mem_values_of_get? (h : get? entries key = some value) : value ∈ values entries :=
  List.mem_map_of_mem (get?_mem h)

/-- Storing the value that is there already changes nothing. -/
theorem insert_of_get? (h : get? entries key = some value) : insert entries key value = entries := by
  induction entries with
  | nil => cases h
  | cons first rest ih =>
    rw [get?] at h
    rw [insert]
    split at h
    -- The first entry holds the value, and is replaced by itself.
    next hkey =>
      obtain rfl := Option.some.inj h
      rw [if_pos hkey, ← hkey]
    next hkey => rw [if_neg hkey, ih h]

/-- A key that occurs once leads to its value. -/
theorem get?_of_mem (hnodup : (keys entries).Nodup) (hmem : (key, value) ∈ entries) :
    get? entries key = some value := by
  induction entries with
  | nil => exact absurd hmem List.not_mem_nil
  | cons first rest ih =>
    obtain ⟨hfirst, hrest⟩ := List.nodup_cons.mp hnodup
    rcases List.mem_cons.mp hmem with rfl | hmem
    · exact if_pos rfl
    · have hne : first.1 ≠ key := fun heq => hfirst (heq ▸ List.mem_map_of_mem hmem)
      rw [get?, if_neg hne]
      exact ih hrest hmem

/-- A key that is new comes last. -/
theorem insert_of_not_mem (value : α) (h : key ∉ keys entries) :
    insert entries key value = entries ++ [(key, value)] := by
  induction entries with
  | nil => rfl
  | cons first rest ih =>
    obtain ⟨hfirst, hrest⟩ := not_or.mp fun hmem => h (List.mem_cons.mpr hmem)
    rw [insert, if_neg fun heq => hfirst heq.symm, ih hrest, List.cons_append]

/-- Pairs with distinct keys are inserted as they are, one behind the other. The induction is on the pairs,
with what has been inserted before them. -/
theorem ofPairs_eq_self {pairs : List (String × α)} (h : (pairs.map Prod.fst).Nodup) :
    ofPairs pairs = pairs := by
  suffices hbehind : ∀ before : Entries α, (keys (before ++ pairs)).Nodup →
      pairs.foldl (fun entries pair => insert entries pair.1 pair.2) before = before ++ pairs from
    hbehind [] h
  clear h
  induction pairs with
  | nil => exact fun before _ => (List.append_nil before).symm
  | cons pair rest ih =>
    intro before hnodup
    -- The key of the next pair is not among those that are inserted already, so it goes behind
    -- them.
    have hnew : pair.1 ∉ keys before := by
      rw [keys, List.map_append] at hnodup
      exact fun hmem => (List.nodup_append.mp hnodup).2.2 _ hmem _
        (List.mem_map_of_mem List.mem_cons_self) rfl
    rw [List.append_cons] at hnodup ⊢
    rw [List.foldl_cons, insert_of_not_mem _ hnew]
    exact ih _ hnodup

/-- So are pairs whose keys are names of definitions, in their order: no two definitions share a name. -/
theorem ofPairs_eq_of_sublist {δ : Type} {name : δ → String} (filed : Filed name)
    {pairs : List (String × α)}
    (h : (keys pairs).Sublist ((values filed.entries).map name)) : ofPairs pairs = pairs :=
  ofPairs_eq_self (filed.nodup_names.sublist h)

/-! ### Changing the values -/

theorem keys_cons (entry : String × α) (entries : Entries α) :
    keys (entry :: entries) = entry.1 :: keys entries := rfl

theorem keys_map (f : α → β) (entries : Entries α) :
    keys (entries.map fun entry => (entry.1, f entry.2)) = keys entries := by
  rw [keys, keys, List.map_map]
  rfl

theorem get?_map (f : α → β) (entries : Entries α) (key : String) :
    get? (entries.map fun entry => (entry.1, f entry.2)) key = (get? entries key).map f := by
  induction entries with
  | nil => rfl
  | cons first rest ih =>
    rw [List.map_cons, get?, get?, ih]
    split <;> rfl

/-- Leaving out entries by their keys does not change what is stored under the keys that are kept. -/
theorem get?_filter_of_pos {keep : String → Bool} (hkey : keep key = true) (entries : Entries α) :
    get? (entries.filter fun entry => keep entry.1) key = get? entries key := by
  induction entries with
  | nil => rfl
  | cons first rest ih =>
    rw [List.filter_cons, get?]
    -- An entry under the key is kept, whatever else is left out before it.
    by_cases hfirst : first.1 = key
    · rw [if_pos (by rw [hfirst, hkey]), get?, if_pos hfirst, if_pos hfirst]
    · rw [if_neg hfirst]
      split
      · rw [get?, if_neg hfirst, ih]
      · exact ih

theorem get?_modify (entries : Entries α) (key : String) (f : α → α) (other : String) :
    get? (modify entries key f) other =
      if key = other then (get? entries other).map f else get? entries other := by
  induction entries with
  | nil => exact (ite_self none).symm
  | cons first rest ih =>
    rw [modify]
    -- Only the first entry under the key is modified, and it is the only one that is looked up.
    by_cases hfirst : first.1 = key
    · rw [if_pos hfirst, get?, get?, hfirst]
      by_cases hother : key = other
      · simp only [if_pos hother, Option.map_some]
      · simp only [if_neg hother]
    · rw [if_neg hfirst, get?, get?, ih]
      by_cases hother : first.1 = other
      -- An entry that is found under another key is not the one that is modified.
      · have hne : key ≠ other := fun heq => hfirst (hother.trans heq.symm)
        simp only [if_pos hother, if_neg hne]
      · simp only [if_neg hother]

/-- A change that leaves the value as it is changes nothing. -/
theorem modify_of_get? {f : α → α} (h : ∀ value, get? entries key = some value → f value = value) :
    modify entries key f = entries := by
  induction entries with
  | nil => rfl
  | cons first rest ih =>
    rw [modify]
    by_cases hfirst : first.1 = key
    · rw [if_pos hfirst, h first.2 (by rw [get?, if_pos hfirst])]
    · rw [if_neg hfirst, ih fun value hvalue => h value (by rw [get?, if_neg hfirst, hvalue])]

/-- What a change of the values makes of a change under a key. -/
theorem modify_map {g : α → β} {f : α → α} {f' : β → β} (h : ∀ value, g (f value) = f' (g value))
    (entries : Entries α) (key : String) :
    (modify entries key f).map (fun entry => (entry.1, g entry.2)) =
      modify (entries.map fun entry => (entry.1, g entry.2)) key f' := by
  induction entries with
  | nil => rfl
  | cons first rest ih =>
    rw [modify, List.map_cons, modify]
    split
    · rw [List.map_cons, h]
    · rw [List.map_cons, ih]

theorem replaceKey_map (f : α → β) (entries : Entries α) (key : String) (entry : String × α) :
    replaceKey (entries.map fun entry => (entry.1, f entry.2)) key (entry.1, f entry.2) =
      (replaceKey entries key entry).map fun entry => (entry.1, f entry.2) := by
  induction entries with
  | nil => rfl
  | cons first rest ih =>
    rw [List.map_cons, replaceKey, replaceKey, ih]
    split <;> rfl

theorem swapErase_map (f : α → β) (entries : Entries α) (key : String) :
    swapErase (entries.map fun entry => (entry.1, f entry.2)) key =
      (swapErase entries key).map fun entry => (entry.1, f entry.2) := by
  rw [swapErase, swapErase, List.getLast?_map, ← List.map_dropLast]
  cases entries.getLast? with
  | none => rfl
  | some last =>
    rw [Option.map_some]
    dsimp only
    split
    · rfl
    · exact replaceKey_map f entries.dropLast key last

theorem mem_replaceKey {entry other : String × α} (h : other ∈ replaceKey entries key entry) :
    other = entry ∨ other ∈ entries := by
  induction entries with
  | nil => exact absurd h List.not_mem_nil
  | cons first rest ih =>
    rw [replaceKey] at h
    split at h
    · exact (List.mem_cons.mp h).imp_right (List.mem_cons_of_mem first)
    · rcases List.mem_cons.mp h with rfl | hrest
      · exact .inr List.mem_cons_self
      · exact (ih hrest).imp_right (List.mem_cons_of_mem first)

theorem mem_of_mem_swapErase {entry : String × α} (h : entry ∈ swapErase entries key) :
    entry ∈ entries := by
  rw [swapErase] at h
  split at h
  next => exact absurd h List.not_mem_nil
  next last hlast =>
    split at h
    · exact List.dropLast_subset _ h
    · rcases mem_replaceKey h with rfl | hmem
      · exact List.mem_of_getLast? hlast
      · exact List.dropLast_subset _ hmem

/-! ### Removing a key -/

theorem replaceKey_perm {entry : String × α} (hmem : key ∈ keys entries) :
    (replaceKey entries key entry).Perm (entry :: erase entries key) := by
  induction entries with
  | nil => exact absurd hmem List.not_mem_nil
  | cons first rest ih =>
    rw [replaceKey, erase]
    split
    · exact .refl _
    next hne =>
      -- The entry to be replaced is further behind; the entries before it keep their places.
      have hrest : key ∈ keys rest :=
        (List.mem_cons.mp hmem).resolve_left fun heq => hne heq.symm
      exact ((ih hrest).cons first).trans (.swap entry first _)

theorem erase_append_of_mem (hmem : key ∈ keys entries) (others : Entries α) :
    erase (entries ++ others) key = erase entries key ++ others := by
  induction entries with
  | nil => exact absurd hmem List.not_mem_nil
  | cons first rest ih =>
    rw [List.cons_append, erase, erase]
    split
    · rfl
    next hne =>
      have hrest : key ∈ keys rest :=
        (List.mem_cons.mp hmem).resolve_left fun heq => hne heq.symm
      rw [ih hrest, List.cons_append]

theorem erase_append_of_not_mem (hmem : key ∉ keys entries) (others : Entries α) :
    erase (entries ++ others) key = entries ++ erase others key := by
  induction entries with
  | nil => rfl
  | cons first rest ih =>
    obtain ⟨hne, hrest⟩ := not_or.mp fun h => hmem (List.mem_cons.mpr h)
    rw [List.cons_append, erase, if_neg fun heq => hne heq.symm, ih hrest, List.cons_append]

/-- Moving the last entry into the place of a key removes that key. -/
theorem swapErase_perm_erase (hnodup : (keys entries).Nodup) (hmem : key ∈ keys entries) :
    (swapErase entries key).Perm (erase entries key) := by
  rw [swapErase]
  split
  next hnone =>
    rw [List.getLast?_eq_none_iff.mp hnone] at hmem
    exact absurd hmem List.not_mem_nil
  next last hlast =>
    obtain ⟨init, rfl⟩ : ∃ init, entries = init ++ [last] :=
      ⟨_, (List.dropLast_append_getLast? last hlast).symm⟩
    rw [List.dropLast_concat]
    rw [keys, List.map_append] at hnodup hmem
    obtain ⟨_, _, hdisjoint⟩ := List.nodup_append'.mp hnodup
    split
    next heq =>
      -- The last entry is the one to go, so the key is not among the others.
      have hinit : key ∉ keys init := fun h => hdisjoint h (by simp [heq])
      rw [erase_append_of_not_mem hinit, erase, if_pos heq, List.append_nil]
    next hne =>
      have hinit : key ∈ keys init := by
        refine (List.mem_append.mp hmem).resolve_right fun h => hne ?_
        exact (List.mem_singleton.mp h).symm
      rw [erase_append_of_mem hinit]
      exact (replaceKey_perm hinit).trans (List.perm_append_singleton last _).symm

theorem mem_keys_erase (hnodup : (keys entries).Nodup) {other : String} :
    other ∈ keys (erase entries key) ↔ other ∈ keys entries ∧ other ≠ key := by
  induction entries with
  | nil => simp [erase, keys]
  | cons first rest ih =>
    obtain ⟨hfirst, hrest⟩ := List.nodup_cons.mp hnodup
    rw [erase]
    split
    next heq =>
      subst heq
      rw [keys_cons, List.mem_cons]
      -- The first entry is erased. As keys are distinct, no other entry has its key.
      exact ⟨fun h => ⟨.inr h, fun heq => hfirst (heq ▸ h)⟩, fun h => h.1.resolve_left h.2⟩
    next hne =>
      rw [keys_cons, keys_cons, List.mem_cons, List.mem_cons, ih hrest]
      refine ⟨?_, ?_⟩
      · rintro (rfl | ⟨h, hother⟩)
        · exact ⟨.inl rfl, hne⟩
        · exact ⟨.inr h, hother⟩
      · rintro ⟨h, hother⟩
        exact h.imp_right fun h => ⟨h, hother⟩

theorem nodup_keys_erase (hnodup : (keys entries).Nodup) : (keys (erase entries key)).Nodup := by
  refine hnodup.sublist ?_
  -- The keys of what is left are a part of the keys, in the same order.
  clear hnodup
  refine List.Sublist.map Prod.fst ?_
  induction entries with
  | nil => exact .slnil
  | cons first rest ih =>
    rw [erase]
    split
    · exact List.sublist_cons_self first rest
    · exact ih.cons_cons first

theorem mem_of_mem_erase {entry : String × α} (h : entry ∈ erase entries key) : entry ∈ entries := by
  induction entries with
  | nil => exact absurd h List.not_mem_nil
  | cons first rest ih =>
    rw [erase] at h
    split at h
    · exact List.mem_cons_of_mem first h
    · rcases List.mem_cons.mp h with rfl | hrest
      · exact List.mem_cons_self
      · exact List.mem_cons_of_mem first (ih hrest)

/-- A key that occurs once is gone after its removal. -/
theorem get?_erase_self (hnodup : (keys entries).Nodup) : get? (erase entries key) key = none := by
  refine Option.not_isSome_iff_eq_none.mp fun hsome => ?_
  have hmem := (get?_isSome_iff_mem_keys _ _).mp hsome
  exact ((mem_keys_erase hnodup).mp hmem).2 rfl

theorem get?_erase_of_ne {other : String} (h : other ≠ key) :
    get? (erase entries key) other = get? entries other := by
  induction entries with
  | nil => rfl
  | cons first rest ih =>
    rw [erase]
    split
    next heq => rw [get?, if_neg fun hother => h (hother.symm.trans heq)]
    next => rw [get?, get?, ih]

/-- With distinct keys, the order of the entries does not matter to a look-up. -/
theorem get?_eq_of_perm {others : Entries α} (hnodup : (keys entries).Nodup)
    (h : entries.Perm others) : get? entries key = get? others key := by
  have hothers : (keys others).Nodup := (h.map Prod.fst).nodup_iff.mp hnodup
  refine Option.ext fun value => ⟨fun hget => ?_, fun hget => ?_⟩
  · exact get?_of_mem hothers (h.mem_iff.mp (get?_mem hget))
  · exact get?_of_mem hnodup (h.mem_iff.mpr (get?_mem hget))

theorem nodup_keys_swapErase (hnodup : (keys entries).Nodup) (hmem : key ∈ keys entries) :
    (keys (swapErase entries key)).Nodup :=
  (((swapErase_perm_erase hnodup hmem).map Prod.fst).nodup_iff).mpr (nodup_keys_erase hnodup)

theorem mem_keys_swapErase (hnodup : (keys entries).Nodup) (hmem : key ∈ keys entries)
    {other : String} :
    other ∈ keys (swapErase entries key) ↔ other ∈ keys entries ∧ other ≠ key :=
  ((swapErase_perm_erase hnodup hmem).map Prod.fst).mem_iff.trans (mem_keys_erase hnodup)

theorem get?_swapErase_of_ne (hnodup : (keys entries).Nodup) (hmem : key ∈ keys entries)
    {other : String} (h : other ≠ key) :
    get? (swapErase entries key) other = get? entries other :=
  (get?_eq_of_perm (nodup_keys_swapErase hnodup hmem) (swapErase_perm_erase hnodup hmem)).trans
    (get?_erase_of_ne h)

end Entries

end GraphQL
