import GraphQL.Proofs.Schema.WellFormed

/-!
# Schemas with wrapped resolvers

A builder wraps the resolvers of fields last, in the order in which it was asked to. So one wrapper more is
one change more to the finished schema: the resolver of one field becomes what the wrapper makes of it,
and a field without a resolver gets what the wrapper makes of the standard one. The checks of the builder
see no difference.

* `Schema.wrapResolver`, `finish_wrapResolver` — wrapping before and after the schema is finished;
* `resolveType_wrapResolver`, `fieldHooks_wrapResolver` — the callbacks of the schema afterwards;
* `wrapResolver_eq_self` — a wrapper that leaves the resolver of a field as it is leaves the schema as
  it is.
-/

namespace GraphQL

/-- What is done with the result of a sequence can be done in its last step. -/
theorem bind_eq_map {ε α β γ : Type} {first : Except ε α} {next : α → Except ε β}
    {next' : α → Except ε γ} {f : β → γ}
    (h : ∀ value, first = .ok value → next' value = (next value).map f) :
    (first >>= next') = (first >>= next).map f := by
  cases first with
  | error error => rfl
  | ok value => exact h value rfl

/-- The callbacks of a field whose resolver is wrapped. -/
def FieldHooks.wrap (wrapper : Resolver → Resolver) (hooks : FieldHooks) : FieldHooks :=
  { hooks with resolver := some (wrapper (hooks.resolver.getD .standard)) }

/-- A schema in which the resolver of a field is wrapped. -/
def Schema.wrapResolver (schema : Schema) (typeName fieldName : String)
    (wrapper : Resolver → Resolver) : Schema :=
  { schema with
    hooks := Entries.modify schema.hooks typeName (·.modifyField fieldName (·.wrap wrapper)) }

namespace SchemaBuilder

variable {builder : SchemaBuilder} {typeName fieldName : String} {wrapper : Resolver → Resolver}

/-- The last callback is attached after all others. -/
theorem attach_append {α : Type} (change : α → FieldHooks → FieldHooks) (table : Entries Registration)
    (callbacks : List (String × String × α)) (callback : α) :
    attach change table (callbacks ++ [(typeName, fieldName, callback)]) =
      attach change table callbacks >>= fun table =>
        modifyField table typeName fieldName (change callback) := by
  simp only [attach, List.foldlM_append, List.foldlM_cons, List.foldlM_nil, bind_pure]

/-- The callbacks of a field that exists can be changed. -/
theorem modifyField_bind {α : Type} {table : Entries Registration} {f : FieldHooks → FieldHooks}
    (hfield : HasField (definitions table) (typeName, fieldName))
    (next : Entries Registration → Except SchemaError α) :
    modifyField table typeName fieldName f >>= next =
      next (Entries.modify table typeName fun registration =>
        { registration with hooks := registration.hooks.modifyField fieldName f }) := by
  obtain ⟨field, hfield⟩ := hasField_definitions_iff.mp hfield
  rw [modifyField, hfield]
  rfl

/-- **A wrapper more wraps a resolver of the finished schema**, and makes no difference to whether there
is one. -/
theorem finish_wrapResolver (hfield : HasField (definitions builder.types) (typeName, fieldName)) :
    (builder.wrapResolver typeName fieldName wrapper).finish =
      builder.finish.map (·.wrapResolver typeName fieldName wrapper) := by
  unfold finish SchemaBuilder.wrapResolver
  simp only [attach_append]
  cases builder.duplicates.head? with
  | some name => rfl
  | none =>
    -- The same checks are made and the same callbacks attached, up to the last one.
    refine bind_eq_map fun _ _ => bind_eq_map fun resolved hresolved =>
      bind_eq_map fun subscribed hsubscribed => ?_
    rw [bind_assoc]
    refine bind_eq_map fun wrapped hwrapped => ?_
    rw [← definitions_of_attach hresolved, ← definitions_of_attach hsubscribed,
      ← definitions_of_attach hwrapped] at hfield
    rw [modifyField_bind hfield]
    refine bind_eq_map fun _ _ => bind_eq_map fun _ _ => ?_
    refine congrArg (Except.ok ∘ (Schema.mk _ · _)) (Entries.modify_map (fun _ => ?_) wrapped typeName)
    rfl

/-- A schema has callbacks for all types of its builder. -/
theorem hooks_isSome_of_finish {schema : Schema} (h : builder.finish = .ok schema)
    (hfield : HasField (definitions builder.types) (typeName, fieldName)) :
    (Entries.get? schema.hooks typeName).isSome := by
  obtain ⟨resolved, subscribed, wrapped, hresolved, hsubscribed, hwrapped, hhooks⟩ :=
    attached_of_finish h
  rw [← definitions_of_attach hresolved, ← definitions_of_attach hsubscribed,
    ← definitions_of_attach hwrapped, hasField_definitions_iff] at hfield
  obtain ⟨field, hfield⟩ := hfield
  obtain ⟨registration, hregistration, -⟩ := Option.bind_eq_some_iff.mp hfield
  rw [hhooks, Entries.get?_map Registration.hooks wrapped typeName, hregistration]
  rfl

end SchemaBuilder

/-! ### The callbacks afterwards -/

theorem TypeHooks.field_modifyField (hooks : TypeHooks) (name : String) (f : FieldHooks → FieldHooks)
    (other : String) :
    (hooks.modifyField name f).field other =
      if name = other then f (hooks.field other) else hooks.field other := by
  rw [field, modifyField]
  split
  next heq => rw [← heq, Entries.get?_insert_self, Option.getD_some]
  next hne => rw [Entries.get?_insert_of_ne _ _ hne, field]

namespace Schema

variable {schema : Schema} {typeName fieldName : String} {wrapper : Resolver → Resolver}

theorem typeHooks_wrapResolver (other : String) :
    (schema.wrapResolver typeName fieldName wrapper).typeHooks other =
      if typeName = other ∧ (Entries.get? schema.hooks typeName).isSome then
        (schema.typeHooks other).modifyField fieldName (·.wrap wrapper)
      else schema.typeHooks other := by
  rw [typeHooks, wrapResolver, Entries.get?_modify]
  by_cases hname : typeName = other
  · subst hname
    rw [if_pos rfl, typeHooks]
    cases Entries.get? schema.hooks typeName with
    | none => simp
    | some hooks => simp
  · rw [if_neg hname, if_neg fun h => hname h.1, typeHooks]

/-- Types are told apart as before. -/
theorem resolveType_wrapResolver (other : String) :
    ((schema.wrapResolver typeName fieldName wrapper).typeHooks other).resolveType =
      (schema.typeHooks other).resolveType := by
  rw [typeHooks_wrapResolver]
  split <;> rfl

/-- **Only the field itself is changed.** -/
theorem fieldHooks_wrapResolver (other name : String) :
    (schema.wrapResolver typeName fieldName wrapper).fieldHooks other name =
      if (typeName = other ∧ fieldName = name) ∧ (Entries.get? schema.hooks typeName).isSome then
        (schema.fieldHooks other name).wrap wrapper
      else schema.fieldHooks other name := by
  rw [fieldHooks, typeHooks_wrapResolver, fieldHooks]
  by_cases htype : typeName = other ∧ (Entries.get? schema.hooks typeName).isSome
  · rw [if_pos htype, TypeHooks.field_modifyField]
    simp only [htype.1, htype.1 ▸ htype.2, true_and, and_true]
  · rw [if_neg htype, if_neg fun h => htype ⟨h.1.1, h.2⟩]

/-- Subscriptions have the subscribers that they had. -/
theorem subscriber_wrapResolver (other name : String) :
    ((schema.wrapResolver typeName fieldName wrapper).fieldHooks other name).subscriber =
      (schema.fieldHooks other name).subscriber := by
  rw [fieldHooks_wrapResolver]
  split <;> rfl

/-- **A wrapper that leaves the resolver of a field as it is** leaves the schema as it is. -/
theorem wrapResolver_eq_self {resolver : Resolver}
    (h : (schema.fieldHooks typeName fieldName).resolver = some resolver)
    (hwrapper : wrapper resolver = resolver) :
    schema.wrapResolver typeName fieldName wrapper = schema := by
  have hwrap : (schema.fieldHooks typeName fieldName).wrap wrapper =
      schema.fieldHooks typeName fieldName := by
    rw [FieldHooks.wrap, h, Option.getD_some, hwrapper, ← h]
  -- So it is enough that the entry of the type is what it was.
  rw [wrapResolver]
  refine congrArg (Schema.mk _ · _) (Entries.modify_of_get? fun hooks hhooks => ?_)
  have htype : schema.typeHooks typeName = hooks := by rw [typeHooks, hhooks, Option.getD_some]
  rw [fieldHooks, htype] at hwrap h
  -- The field has callbacks, so they are replaced where they are.
  obtain ⟨callbacks, hcallbacks⟩ : ∃ callbacks, Entries.get? hooks.fields fieldName = some callbacks := by
    refine Option.ne_none_iff_exists'.mp fun hnone => ?_
    rw [TypeHooks.field, hnone] at h
    cases h
  have hfield : hooks.field fieldName = callbacks := by
    rw [TypeHooks.field, hcallbacks, Option.getD_some]
  rw [TypeHooks.modifyField, hwrap, hfield, Entries.insert_of_get? hcallbacks]

end Schema

end GraphQL
