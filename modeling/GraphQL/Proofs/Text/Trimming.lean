import GraphQL.Text.Blank
import Mathlib.Data.List.DropRight

/-!
# Trimming

What is left of a text when the white space at its ends is dropped.

* `Text.IsSolid` — texts without white space at their ends;
* `Text.trim_around` — trimming takes the white space around a solid text away;
* `Text.exists_trim`, `Text.exists_trimEnd` — and it takes nothing else away.
-/

namespace GraphQL.Text

variable {cs before after : List Char}

/-- White space and nothing else, if there is anything at all. -/
def AllBlank (cs : List Char) : Prop := ∀ c ∈ cs, isBlank c = true

instance (cs : List Char) : Decidable (AllBlank cs) :=
  decidable_of_iff (cs.all isBlank = true) List.all_eq_true

/-- There is no white space at the ends of a text. -/
structure IsSolid (cs : List Char) : Prop where
  nonempty : cs ≠ []
  head : ∀ c ∈ cs.head?, isBlank c = false
  last : ∀ c ∈ cs.getLast?, isBlank c = false

theorem allBlank_nil : AllBlank [] := fun _ hmem => absurd hmem List.not_mem_nil

theorem AllBlank.append {cs ds : List Char} (h : AllBlank cs) (h' : AllBlank ds) : AllBlank (cs ++ ds) :=
  fun c hmem => (List.mem_append.mp hmem).elim (h c) (h' c)

/-- Without its white space nothing is left of a text that is all white space. -/
theorem AllBlank.filter_eq (h : AllBlank cs) : (cs.filter fun c => !isBlank c) = [] := by
  rw [List.filter_eq_nil_iff]
  intro c hmem
  rw [h c hmem]
  exact Bool.false_ne_true

theorem trimEnd_eq_rdropWhile (cs : List Char) : trimEnd cs = cs.rdropWhile isBlank := rfl

/-- White space behind a text that does not end in any is dropped. -/
theorem trimEnd_append (h : ∀ c ∈ cs.getLast?, isBlank c = false) (hafter : AllBlank after) :
    trimEnd (cs ++ after) = cs := by
  -- Nothing is dropped from the text alone, since its last character is not blank.
  have hself : trimEnd cs = cs := by
    rw [trimEnd_eq_rdropWhile, List.rdropWhile_eq_self_iff]
    intro hne hblank
    rw [h _ (List.getLast?_eq_some_getLast hne)] at hblank
    exact Bool.false_ne_true hblank
  -- The white space is dropped from its end on, so the induction is on its end.
  induction after using List.reverseRecOn with
  | nil => rw [List.append_nil, hself]
  | append_singleton rest c ih =>
    have hblank := hafter c (List.mem_append_right rest (List.mem_singleton_self c))
    rw [trimEnd_eq_rdropWhile, ← List.append_assoc, List.rdropWhile_concat_pos _ _ _ hblank]
    exact ih fun d hmem => hafter d (List.mem_append_left _ hmem)

/-- **Trimming drops the white space around a solid text.** -/
theorem trim_around (h : IsSolid cs) (hbefore : AllBlank before) (hafter : AllBlank after) :
    trim (before ++ cs ++ after) = cs := by
  obtain ⟨c, rest, rfl⟩ := List.exists_cons_of_ne_nil h.nonempty
  have hfirst : isBlank c = false := h.head c rfl
  have hstart : (before ++ (c :: rest) ++ after).dropWhile isBlank = c :: rest ++ after := by
    rw [List.append_assoc, List.dropWhile_append_of_pos hbefore, List.cons_append,
      List.dropWhile_cons_of_neg (by rw [hfirst]; exact Bool.false_ne_true)]
  rw [trim, hstart, trimEnd_append h.last hafter]

/-- Only white space is dropped at the end. -/
theorem exists_trimEnd (cs : List Char) : ∃ after, cs = trimEnd cs ++ after ∧ AllBlank after :=
  ⟨cs.rtakeWhile isBlank, List.rdropWhile_append_rtakeWhile.symm, fun _ => List.mem_rtakeWhile_imp⟩

/-- **Only white space is dropped by trimming.** -/
theorem exists_trim (cs : List Char) :
    ∃ before after, cs = before ++ trim cs ++ after ∧ AllBlank before ∧ AllBlank after := by
  obtain ⟨after, hafter, hblank⟩ := exists_trimEnd (cs.dropWhile isBlank)
  refine ⟨cs.takeWhile isBlank, after, ?_, fun _ => List.mem_takeWhile_imp, hblank⟩
  rw [trim, List.append_assoc, ← hafter, List.takeWhile_append_dropWhile]

end GraphQL.Text
