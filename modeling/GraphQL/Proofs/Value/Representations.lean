import GraphQL.Execution.Complete
import Mathlib.Data.List.Forall2

/-!
# Representations of a constant value

Without data sources, a raw value is a constant value in another form: some of its lists are lists of raw
values, and parts of it are marked with types. What the engine reads of a value is the same in every form.

* `FieldValue.form_of_toValue?` — the two forms of a value below its markers;
* `FieldValue.isNull_of_toValue?`, `FieldValue.field?_of_toValue?` — whether it is null, and its fields;
* `Completion.items?_of_toValue?` — its items, which are the items of the constant in forms of their own.
-/

namespace GraphQL

namespace FieldValue

@[simp] theorem toValue?_plain (constant : Value) : (plain constant).toValue? = some constant := rfl

theorem toValues?_eq_some_iff {items : List FieldValue} {values : List Value} :
    toValues? items = some values ↔
      List.Forall₂ (fun item value => item.toValue? = some value) items values := by
  induction items generalizing values with
  | nil => cases values <;> simp [toValues?]
  | cons item rest ih =>
    rw [toValues?, List.forall₂_cons_left_iff]
    constructor
    · intro h
      -- Both the item and the rest are constants.
      split at h
      next value others hvalue hothers =>
        obtain rfl := Option.some.inj h
        exact ⟨value, others, hvalue, ih.mp hothers, rfl⟩
      next => cases h
    · rintro ⟨value, others, hvalue, hothers, rfl⟩
      rw [hvalue, ih.mpr hothers]

/-- A raw value without data sources is, below its markers, the constant itself or a list of raw values for
the items of the constant. The induction is on the markers. -/
theorem form_of_toValue? {value : FieldValue} {constant : Value} (h : value.toValue? = some constant) :
    (value.untyped = .plain constant ∧ value.value? = some constant) ∨
      ∃ items values, value.untyped = .list items ∧ value.value? = none ∧ constant = .list values ∧
        List.Forall₂ (fun item value => item.toValue? = some value) items values := by
  fun_induction untyped value with
  | case1 value _ ih =>
    rw [toValue?] at h
    rw [value?]
    exact ih h
  | case2 value hmarked =>
    cases value with
    | plain other =>
      obtain rfl := Option.some.inj h
      exact .inl ⟨rfl, rfl⟩
    | list items =>
      obtain ⟨values, hvalues, rfl⟩ := Option.map_eq_some_iff.mp h
      exact .inr ⟨items, values, rfl, rfl, rfl, toValues?_eq_some_iff.mp hvalues⟩
    | source => cases h
    -- Markers are looked through by the other case.
    | typed value typeName => exact absurd rfl (hmarked value typeName)

variable {value : FieldValue} {constant : Value}

/-- Whether a raw value is null. -/
theorem isNull_of_toValue? (h : value.toValue? = some constant) : value.isNull = constant.isNull := by
  rcases form_of_toValue? h with ⟨-, hvalue⟩ | ⟨items, values, -, hvalue, rfl, -⟩
  · rw [isNull, hvalue]
    cases constant <;> rfl
  · rw [isNull, hvalue]
    rfl

/-- The fields of a raw value. -/
theorem field?_of_toValue? (h : value.toValue? = some constant) (name : String) :
    value.field? name = (FieldValue.plain constant).field? name := by
  rcases form_of_toValue? h with ⟨hform, -⟩ | ⟨items, values, hform, -, rfl, -⟩
  · rw [field?, hform, field?]
    rfl
  · rw [field?, hform]
    rfl

end FieldValue

/-- The items of a raw value for a list, in forms of their own. Any other raw value has none. -/
theorem Completion.items?_of_toValue? {value : FieldValue} {constant : Value}
    (h : value.toValue? = some constant) :
    (∃ items values, constant = .list values ∧ items? value = some items ∧
      List.Forall₂ (fun item value => item.toValue? = some value) items values) ∨
    ((∀ values, constant ≠ .list values) ∧ items? value = none) := by
  rcases FieldValue.form_of_toValue? h with ⟨hform, -⟩ | ⟨items, values, hform, -, rfl, hitems⟩
  · rw [items?, hform]
    cases constant with
    | list values =>
      refine .inl ⟨values.map .plain, values, rfl, rfl, ?_⟩
      exact List.forall₂_map_left_iff.mpr (List.forall₂_same.mpr fun _ _ => rfl)
    | _ => exact .inr ⟨fun _ => Value.noConfusion, rfl⟩
  · exact .inl ⟨items, values, rfl, by rw [items?, hform], hitems⟩

end GraphQL
