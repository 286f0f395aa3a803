import GraphQL.Proofs.Schema.WellFormed
import GraphQL.Proofs.Schema.WrappedResolvers

/-!
# The callbacks of a finished schema

A builder collects callbacks in the order of the calls and attaches them last: first all resolvers, then
all subscribers, then all wrappers. So what a field has in the finished schema is read off the calls for
that field: the last resolver counts, or else the one that the type was registered with, the last
subscriber likewise, and every wrapper is put around the resolver, the standard one if there is none.

* `fieldHooksIn`, `fieldHooksIn_of_attach` — the callbacks of a field in a table, before and after some
  are attached;
* `callbacks_ofCalls` — the callbacks that a builder has collected;
* `FieldHooks.after`, `fieldHooks_of_finish` — the callbacks of a field of the finished schema;
* `resolveType_of_finish` — types are told apart as they were registered.
-/

namespace GraphQL

namespace BuilderCall

/-- The resolver that a call gives to a field. -/
def resolver? : BuilderCall → Option (String × String × Resolver)
  | .resolver typeName fieldName given => some (typeName, fieldName, given)
  | _ => none

/-- The subscriber that a call gives to a field. -/
def subscriber? : BuilderCall → Option (String × String × Subscriber)
  | .subscriber typeName fieldName given => some (typeName, fieldName, given)
  | _ => none

/-- The wrapper that a call puts around the resolver of a field. -/
def wrapper? : BuilderCall → Option (String × String × (Resolver → Resolver))
  | .wrapResolver typeName fieldName given => some (typeName, fieldName, given)
  | _ => none

end BuilderCall

/-- Those of some callbacks that are for one field, in their order. -/
def callbacksOf {α : Type} (target : String × String) (callbacks : List (String × String × α)) :
    List α :=
  callbacks.filterMap fun callback =>
    if (callback.1, callback.2.1) = target then some callback.2.2 else none

/-- The callbacks of a field after some calls, given those that it was registered with. Wrappers come
last, whenever they were called for. -/
def FieldHooks.after (hooks : FieldHooks) (calls : List BuilderCall) (target : String × String) :
    FieldHooks where
  resolver := (callbacksOf target (calls.filterMap BuilderCall.wrapper?)).foldl
    (fun resolver wrapper => some (wrapper (resolver.getD .standard)))
    ((callbacksOf target (calls.filterMap BuilderCall.resolver?)).getLast?.or hooks.resolver)
  subscriber := (callbacksOf target (calls.filterMap BuilderCall.subscriber?)).getLast?.or
    hooks.subscriber

namespace SchemaBuilder

/-! ### Attaching callbacks -/

/-- The callbacks of a field in a table. -/
def fieldHooksIn (table : Entries Registration) (target : String × String) : FieldHooks :=
  ((Entries.get? table target.1).map fun registration => registration.hooks.field target.2).getD .none

section Attach

variable {α : Type} {change : α → FieldHooks → FieldHooks} {table table' : Entries Registration}

/-- The callbacks of one field are changed, and no others. -/
theorem fieldHooksIn_of_modifyField {typeName fieldName : String} {f : FieldHooks → FieldHooks}
    (h : modifyField table typeName fieldName f = .ok table') (target : String × String) :
    fieldHooksIn table' target = if (typeName, fieldName) = target then f (fieldHooksIn table target)
      else fieldHooksIn table target := by
  obtain ⟨otherType, otherField⟩ := target
  rw [modifyField] at h
  split at h
  next field hfield =>
    obtain rfl := Except.ok.inj h
    -- The field is known, and so is the registration that has it.
    obtain ⟨registration, hregistration, -⟩ := Option.bind_eq_some_iff.mp hfield
    rw [fieldHooksIn, Entries.get?_modify, fieldHooksIn]
    -- Of its type the callbacks of one field are changed, and those of other types are kept.
    by_cases htype : typeName = otherType
    · subst htype
      rw [if_pos rfl, hregistration, Option.map_some, Option.map_some, Option.getD_some,
        Option.map_some, Option.getD_some, TypeHooks.field_modifyField]
      simp only [Prod.mk.injEq, true_and]
    · rw [if_neg htype, if_neg fun heq => htype (congrArg Prod.fst heq)]
  next => cases h

/-- How types are told apart is not changed. -/
theorem resolveType_of_modifyField {typeName fieldName : String} {f : FieldHooks → FieldHooks}
    (h : modifyField table typeName fieldName f = .ok table') (name : String) :
    (Entries.get? table' name).map (·.hooks.resolveType) =
      (Entries.get? table name).map (·.hooks.resolveType) := by
  rw [modifyField] at h
  split at h
  next =>
    obtain rfl := Except.ok.inj h
    -- Only the callbacks of fields are changed, for whichever type.
    rw [Entries.get?_modify]
    split
    · rw [Option.map_map]
      rfl
    · rfl
  next => cases h

/-- **The callbacks of a field are changed one after the other**, in the order in which they are attached.
The induction is on the callbacks. -/
theorem fieldHooksIn_of_attach {callbacks : List (String × String × α)}
    (h : attach change table callbacks = .ok table') (target : String × String) :
    fieldHooksIn table' target =
      (callbacksOf target callbacks).foldl (fun hooks callback => change callback hooks)
        (fieldHooksIn table target) := by
  induction callbacks generalizing table with
  | nil =>
    obtain rfl := Except.ok.inj h
    rfl
  | cons callback rest ih =>
    obtain ⟨next, hnext, hrest⟩ := bind_eq_ok.mp h
    rw [ih hrest, fieldHooksIn_of_modifyField hnext target, callbacksOf, callbacksOf,
      List.filterMap_cons]
    split <;> rfl

theorem resolveType_of_attach {callbacks : List (String × String × α)}
    (h : attach change table callbacks = .ok table') (name : String) :
    (Entries.get? table' name).map (·.hooks.resolveType) =
      (Entries.get? table name).map (·.hooks.resolveType) := by
  induction callbacks generalizing table with
  | nil =>
    obtain rfl := Except.ok.inj h
    rfl
  | cons callback rest ih =>
    obtain ⟨next, hnext, hrest⟩ := bind_eq_ok.mp h
    exact (ih hrest).trans (resolveType_of_modifyField hnext name)

/-- Of resolvers that replace each other the last one counts. -/
theorem foldl_resolver (resolvers : List Resolver) (hooks : FieldHooks) :
    resolvers.foldl (fun hooks resolver => { hooks with resolver := some resolver }) hooks =
      { hooks with resolver := resolvers.getLast?.or hooks.resolver } := by
  induction resolvers using List.reverseRecOn with
  | nil => rfl
  | append_singleton resolvers resolver ih =>
    rw [List.foldl_append, ih, List.getLast?_concat]
    rfl

/-- Of subscribers that replace each other the last one counts. -/
theorem foldl_subscriber (subscribers : List Subscriber) (hooks : FieldHooks) :
    subscribers.foldl (fun hooks subscriber => { hooks with subscriber := some subscriber }) hooks =
      { hooks with subscriber := subscribers.getLast?.or hooks.subscriber } := by
  induction subscribers using List.reverseRecOn with
  | nil => rfl
  | append_singleton subscribers subscriber ih =>
    rw [List.foldl_append, ih, List.getLast?_concat]
    rfl

/-- Wrappers are put around each other. -/
theorem foldl_wrapper (wrappers : List (Resolver → Resolver)) (hooks : FieldHooks) :
    wrappers.foldl (fun hooks wrapper =>
        { hooks with resolver := some (wrapper (hooks.resolver.getD .standard)) }) hooks =
      { hooks with
        resolver := wrappers.foldl (fun resolver wrapper => some (wrapper (resolver.getD .standard)))
          hooks.resolver } := by
  induction wrappers generalizing hooks with
  | nil => rfl
  | cons wrapper rest ih => rw [List.foldl_cons, ih, List.foldl_cons]

end Attach

/-! ### The callbacks that a builder has collected -/

variable {query : String} {mutation subscription : Option String} {calls : List BuilderCall}

/-- **The callbacks** stand in the tables of the builder in the order of the calls. -/
theorem callbacks_ofCalls (calls : List BuilderCall) :
    let builder := ofCalls query mutation subscription calls
    builder.resolvers = calls.filterMap BuilderCall.resolver? ∧
      builder.subscribers = calls.filterMap BuilderCall.subscriber? ∧
        builder.wrappers = calls.filterMap BuilderCall.wrapper? := by
  refine ofCalls_induction (P := fun calls builder =>
    builder.resolvers = calls.filterMap BuilderCall.resolver? ∧
      builder.subscribers = calls.filterMap BuilderCall.subscriber? ∧
        builder.wrappers = calls.filterMap BuilderCall.wrapper?) ⟨rfl, rfl, rfl⟩ ?_ calls
  rintro calls builder next ⟨hresolvers, hsubscribers, hwrappers⟩
  simp only [List.filterMap_append, ← hresolvers, ← hsubscribers, ← hwrappers]
  -- A call adds to one of the tables at most.
  cases next <;> simp [call, SchemaBuilder.resolver, SchemaBuilder.subscriber,
    SchemaBuilder.wrapResolver, SchemaBuilder.register, SchemaBuilder.withExtraScalars,
    SchemaBuilder.withConfig, BuilderCall.resolver?, BuilderCall.subscriber?, BuilderCall.wrapper?]

/-! ### The finished schema -/

variable {schema : Schema}

/-- **The callbacks of a field of the finished schema** are those that it was registered with, after the
calls for the field. -/
theorem fieldHooks_of_finish (h : (ofCalls query mutation subscription calls).finish = .ok schema)
    (typeName fieldName : String) :
    schema.fieldHooks typeName fieldName =
      (fieldHooksIn (ofCalls query mutation subscription calls).types (typeName, fieldName)).after calls
        (typeName, fieldName) := by
  obtain ⟨resolved, subscribed, wrapped, hresolved, hsubscribed, hwrapped, hhooks⟩ :=
    attached_of_finish h
  obtain ⟨hresolvers, hsubscribers, hwrappers⟩ :=
    @callbacks_ofCalls query mutation subscription calls
  -- The schema keeps the callbacks of the table that has been attached to last.
  have hfield : schema.fieldHooks typeName fieldName = fieldHooksIn wrapped (typeName, fieldName) := by
    rw [Schema.fieldHooks, Schema.typeHooks, hhooks, Entries.get?_map Registration.hooks, fieldHooksIn]
    cases Entries.get? wrapped typeName <;> rfl
  -- The three kinds of callbacks are attached in turn, each in the order of its calls.
  rw [hfield, fieldHooksIn_of_attach hwrapped, hwrappers, fieldHooksIn_of_attach hsubscribed,
    hsubscribers, fieldHooksIn_of_attach hresolved, hresolvers, foldl_resolver, foldl_subscriber,
    foldl_wrapper]
  rfl

/-- **Types are told apart as they were registered.** -/
theorem resolveType_of_finish (h : (ofCalls query mutation subscription calls).finish = .ok schema)
    (typeName : String) :
    (schema.typeHooks typeName).resolveType =
      ((Entries.get? (ofCalls query mutation subscription calls).types typeName).bind
        (·.hooks.resolveType)) := by
  obtain ⟨resolved, subscribed, wrapped, hresolved, hsubscribed, hwrapped, hhooks⟩ :=
    attached_of_finish h
  -- No call that attaches anything changes how types are told apart.
  have hsame := ((resolveType_of_attach hwrapped typeName).trans
    (resolveType_of_attach hsubscribed typeName)).trans (resolveType_of_attach hresolved typeName)
  have htype : (schema.typeHooks typeName).resolveType =
      ((Entries.get? wrapped typeName).map (·.hooks.resolveType)).join := by
    rw [Schema.typeHooks, hhooks, Entries.get?_map Registration.hooks]
    cases Entries.get? wrapped typeName <;> rfl
  rw [htype, hsame]
  cases Entries.get? (ofCalls query mutation subscription calls).types typeName <;> rfl

end SchemaBuilder

end GraphQL
