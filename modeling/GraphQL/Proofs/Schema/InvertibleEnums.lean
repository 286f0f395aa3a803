import GraphQL.Proofs.Value.Equality
import GraphQL.Schema.Definition

/-!
# Enum types whose names come back

A name is parsed to its internal value, and an internal value is serialized to its name. With different
internal values for different names these are inverse, even where an internal value is spelled like another
name: the internal values are looked through first.

* `EnumType.IsInvertible` — different names have different internal values;
* `EnumType.serialize?_of_parse?` — a name comes back;
* `EnumType.serialize?_eq_some_iff` — which values are serialized to a name.
-/

namespace GraphQL.EnumType

/-- The internal values of an enum type tell its names apart. -/
structure IsInvertible (type : EnumType) : Prop where
  wellFormed : ∀ known ∈ Entries.values type.values.entries, known.value.IsWellFormed
  nonNull : ∀ known ∈ Entries.values type.values.entries, known.value ≠ .null
  distinct : ∀ known ∈ Entries.values type.values.entries, ∀ other ∈ Entries.values type.values.entries,
    Value.same known.value other.value = true → known.name = other.name

variable {type : EnumType} {name : String} {value : Value}

/-- Values are filed under their names, so what a name is parsed to is the internal value of its value. -/
theorem exists_of_parse? (hparse : type.parse? name = some value) :
    ∃ known ∈ Entries.values type.values.entries, known.name = name ∧ known.value = value := by
  obtain ⟨known, hknown, hvalue⟩ := Option.map_eq_some_iff.mp hparse
  exact ⟨known, Entries.mem_values_of_get? hknown, Filed.name_of_get? hknown, hvalue⟩

theorem parse?_of_mem {known : EnumValue}
    (hmem : known ∈ Entries.values type.values.entries) : type.parse? known.name = some known.value := by
  obtain ⟨entry, hentry, rfl⟩ := List.mem_map.mp hmem
  rw [parse?, ← type.values.named entry hentry, Entries.get?_of_mem type.values.distinct hentry]
  rfl

theorem ne_null_of_parse? (h : type.IsInvertible) (hparse : type.parse? name = some value) :
    value ≠ .null := by
  obtain ⟨known, hmem, -, rfl⟩ := exists_of_parse? hparse
  exact h.nonNull known hmem

/-- **A value that is an internal value goes by the name of that one**, whatever its text. -/
theorem serialize?_of_same (h : type.IsInvertible) {internal : Value}
    (hparse : type.parse? name = some internal) (hsame : Value.same internal value = true) :
    type.serialize? value = some name := by
  obtain ⟨known, hmem, rfl, rfl⟩ := exists_of_parse? hparse
  unfold serialize?
  cases hfind : (Entries.values type.values.entries).find?
      fun candidate => Value.same candidate.value value with
  | none => exact absurd hsame (List.find?_eq_none.mp hfind known hmem)
  | some found =>
    have hfound : found ∈ Entries.values type.values.entries := List.mem_of_find?_eq_some hfind
    have hvalue : Value.same found.value value = true := (List.find?_some hfind :)
    -- Both equal the value, so they equal each other.
    have hback := (h.wellFormed known hmem).same_symm hsame
    have heq := (h.wellFormed found hfound).same_trans hvalue hback
    exact congrArg some (h.distinct found hfound known hmem heq)

/-- **A name comes back.** -/
theorem serialize?_of_parse? (h : type.IsInvertible) (hparse : type.parse? name = some value) :
    type.serialize? value = some name := by
  obtain ⟨known, hmem, -, rfl⟩ := exists_of_parse? hparse
  exact serialize?_of_same h hparse (Value.same_self (h.wellFormed known hmem))

/-- A value that is no internal value goes by its own text, if that is a name. So a text is only
taken for a name when no value of the type has that text for its internal value. -/
theorem serialize?_of_not_same
    (hnone : ∀ other internal, type.parse? other = some internal → ¬Value.same internal value = true) :
    type.serialize? value = some name ↔
      (type.parse? name).isSome = true ∧ (value = .enum name ∨ value = .string name) := by
  -- The value is not looked up among the internal values, as it is none of them.
  have hfind : (Entries.values type.values.entries).find?
      (fun candidate => Value.same candidate.value value) =
      none := by
    refine List.find?_eq_none.mpr fun known hmem => ?_
    exact hnone known.name known.value (parse?_of_mem hmem)
  -- A text is the name of a value under which it is found.
  have hkey : ∀ text : String, ((Entries.get? type.values.entries text).map fun _ => text) = some name ↔
      (type.parse? name).isSome = true ∧ text = name := by
    intro text
    rw [parse?, Option.isSome_map]
    constructor
    · intro htext
      obtain ⟨found, hfound, rfl⟩ := Option.map_eq_some_iff.mp htext
      exact ⟨by rw [hfound]; rfl, rfl⟩
    · rintro ⟨hsome, rfl⟩
      obtain ⟨found, hfound⟩ := Option.isSome_iff_exists.mp hsome
      rw [hfound]
      rfl
  unfold serialize?
  rw [hfind]
  -- Only enums and strings have a text to go by.
  cases value with
  | enum text => simpa only [Value.enum.injEq, reduceCtorEq, or_false] using hkey text
  | string text => simpa only [Value.string.injEq, reduceCtorEq, false_or] using hkey text
  | _ => simp only [reduceCtorEq, or_self, and_false]

/-- **Which values are serialized to a name**: its internal value, and the text of the name as an enum or a
string, unless that is the internal value of any name. -/
theorem serialize?_eq_some_iff (h : type.IsInvertible) :
    type.serialize? value = some name ↔
      (∃ internal, type.parse? name = some internal ∧ Value.same internal value = true) ∨
        ((∀ other internal, type.parse? other = some internal → ¬Value.same internal value = true) ∧
          (type.parse? name).isSome = true ∧ (value = .enum name ∨ value = .string name)) := by
  by_cases hknown : ∃ other internal, type.parse? other = some internal ∧
    Value.same internal value = true
  -- It is an internal value, and internal values tell the names apart.
  · obtain ⟨other, internal, hparse, hsame⟩ := hknown
    rw [serialize?_of_same h hparse hsame]
    constructor
    · intro hname
      obtain rfl := Option.some.inj hname
      exact .inl ⟨internal, hparse, hsame⟩
    · rintro (⟨internal', hparse', hsame'⟩ | ⟨hnone, -⟩)
      · rw [← serialize?_of_same h hparse hsame, serialize?_of_same h hparse' hsame']
      · exact absurd hsame (hnone other internal hparse)
  -- It is no internal value, so that only its text is left.
  · have hnone : ∀ other internal, type.parse? other = some internal →
        ¬Value.same internal value = true :=
      fun other internal hparse hsame => hknown ⟨other, internal, hparse, hsame⟩
    rw [serialize?_of_not_same hnone]
    constructor
    · exact fun hname => .inr ⟨hnone, hname⟩
    · rintro (⟨internal, hparse, hsame⟩ | ⟨-, hname⟩)
      · exact absurd hsame (hnone name internal hparse)
      · exact hname

theorem isSome_parse?_of_serialize? (h : type.IsInvertible) (hname : type.serialize? value = some name) :
    (type.parse? name).isSome = true := by
  rcases (serialize?_eq_some_iff h).mp hname with ⟨internal, hparse, -⟩ | ⟨-, hsome, -⟩
  · rw [hparse]; rfl
  · exact hsome

end GraphQL.EnumType
