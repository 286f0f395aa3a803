import GraphQL.Proofs.Entries
import GraphQL.Schema.Builder
import Mathlib.Data.List.Induction

/-!
# Sequences of builder calls

A builder is a new one after some calls. What it has collected by then is read off the calls: the names
that were registered, the fields that callbacks were given for, and a table in which every type stands
under its own name.

The builder is a record of several tables, most of which are changed by one kind of call only. So
the invariants are stated one by one, each with a step for every call, and hold after any sequence
of them.

* `BuilderCall`, `SchemaBuilder.ofCalls` — the calls, and the builder after some of them;
* `rootNames_ofCalls` — the names of the root types;
* `duplicates_ofCalls_eq_nil_iff` — no name counts as a duplicate exactly if none was registered twice;
* `mem_targets_ofCalls` — the fields that callbacks were given for;
* `definitions_ofCalls_wellNamed` — the table of types.
-/

namespace GraphQL

/-- A call of a builder, other than the one that finishes it. -/
inductive BuilderCall where
  | register (registration : Registration)
  | withExtraScalars
  | withConfig (config : Config)
  | resolver (typeName fieldName : String) (resolver : Resolver)
  | subscriber (typeName fieldName : String) (subscriber : Subscriber)
  | wrapResolver (typeName fieldName : String) (wrapper : Resolver → Resolver)

namespace BuilderCall

/-- The name that a call registers. -/
def registeredName? : BuilderCall → Option String
  | .register registration => some registration.definition.name
  | _ => none

/-- The field that a call gives a callback to, by the names of its type and its own. -/
def target? : BuilderCall → Option (String × String)
  | .resolver typeName fieldName _ | .subscriber typeName fieldName _
  | .wrapResolver typeName fieldName _ => some (typeName, fieldName)
  | .register _ | .withExtraScalars | .withConfig _ => none

end BuilderCall

namespace SchemaBuilder

/-- The builder after a call. -/
def call (builder : SchemaBuilder) : BuilderCall → SchemaBuilder
  | .register registration => builder.register registration
  | .withExtraScalars => builder.withExtraScalars
  | .withConfig config => builder.withConfig config
  | .resolver typeName fieldName resolver => builder.resolver typeName fieldName resolver
  | .subscriber typeName fieldName subscriber => builder.subscriber typeName fieldName subscriber
  | .wrapResolver typeName fieldName wrapper => builder.wrapResolver typeName fieldName wrapper

/-- A new builder for the given root types after some calls. -/
def ofCalls (query : String) (mutation subscription : Option String) (calls : List BuilderCall) :
    SchemaBuilder :=
  calls.foldl call (new query mutation subscription)

/-- The fields that a builder has callbacks for. -/
def targets (builder : SchemaBuilder) : List (String × String) :=
  (builder.resolvers.map fun callback => (callback.1, callback.2.1)) ++
    (builder.subscribers.map fun callback => (callback.1, callback.2.1)) ++
      builder.wrappers.map fun callback => (callback.1, callback.2.1)

/-- Every type stands in the table under its own name, and no name stands there twice. -/
structure WellNamed (types : Entries TypeDefinition) : Prop where
  nodup : (Entries.keys types).Nodup
  name : ∀ entry ∈ types, entry.1 = entry.2.name

variable {query : String} {mutation subscription : Option String} {calls : List BuilderCall}

theorem ofCalls_append (next : BuilderCall) :
    ofCalls query mutation subscription (calls ++ [next]) =
      (ofCalls query mutation subscription calls).call next := by
  rw [ofCalls, List.foldl_append]
  rfl

/-- To prove something of the builder after some calls, prove that it holds of a new one and that each
call keeps it. -/
theorem ofCalls_induction {P : List BuilderCall → SchemaBuilder → Prop}
    (hnew : P [] (new query mutation subscription))
    (hcall : ∀ calls builder next, P calls builder → P (calls ++ [next]) (builder.call next))
    (calls : List BuilderCall) : P calls (ofCalls query mutation subscription calls) := by
  induction calls using List.reverseRecOn with
  | nil => exact hnew
  | append_singleton calls next ih =>
    rw [ofCalls_append]
    exact hcall calls _ next ih

/-! ### Names and targets -/

/-- The root types are those that the builder was made for. -/
theorem rootNames_ofCalls (calls : List BuilderCall) :
    let builder := ofCalls query mutation subscription calls
    builder.queryName = query ∧ builder.mutationName = mutation ∧
      builder.subscriptionName = subscription := by
  refine ofCalls_induction (P := fun _ builder => builder.queryName = query ∧
    builder.mutationName = mutation ∧ builder.subscriptionName = subscription) ⟨rfl, rfl, rfl⟩ ?_ calls
  intro calls builder next h
  cases next <;> exact h

theorem roots_ofCalls (calls : List BuilderCall) :
    (ofCalls query mutation subscription calls).roots =
      query :: mutation.toList ++ subscription.toList := by
  obtain ⟨hquery, hmutation, hsubscription⟩ := rootNames_ofCalls calls
  rw [roots, hquery, hmutation, hsubscription]

/-- What a builder knows of the names that have been registered: which ones they are, and whether one
of them was registered again. -/
structure Remembers (calls : List BuilderCall) (builder : SchemaBuilder) : Prop where
  registered : ∀ name, name ∈ builder.registered ↔ name ∈ calls.filterMap BuilderCall.registeredName?
  duplicates : builder.duplicates = [] ↔ (calls.filterMap BuilderCall.registeredName?).Nodup

/-- A name is remembered when it is registered, and counts as a duplicate if it was known before.
Both are read from the calls so far, so that the names in them are distinct as long as no duplicate
has been noted. -/
theorem Remembers.register {builder : SchemaBuilder} (h : Remembers calls builder)
    (registration : Registration) :
    Remembers (calls ++ [BuilderCall.register registration]) (builder.register registration) := by
  let name := registration.definition.name
  have hnames : (calls ++ [BuilderCall.register registration]).filterMap BuilderCall.registeredName? =
      calls.filterMap BuilderCall.registeredName? ++ [name] := by
    rw [List.filterMap_append]
    rfl
  -- The names are distinct as before exactly if the new one has not been known.
  have hnodup : (calls.filterMap BuilderCall.registeredName? ++ [name]).Nodup ↔
      (calls.filterMap BuilderCall.registeredName?).Nodup ∧ name ∉ builder.registered := by
    rw [h.registered, ← List.concat_eq_append, List.nodup_concat, and_comm]
  have hregistered : (builder.register registration).registered =
      if name ∈ builder.registered then builder.registered else builder.registered ++ [name] := by
    simp only [SchemaBuilder.register, List.contains_iff_mem, name]
  have hduplicates : (builder.register registration).duplicates =
      if name ∈ builder.registered then builder.duplicates ++ [name] else builder.duplicates := by
    simp only [SchemaBuilder.register, List.contains_iff_mem, name]
  refine ⟨fun other => ?_, ?_⟩
  -- The name is known in either case.
  · rw [hnames, hregistered, List.mem_append, List.mem_singleton, ← h.registered other]
    split
    next hknown => exact ⟨.inl, fun hother => hother.elim id fun heq => heq ▸ hknown⟩
    next => rw [List.mem_append, List.mem_singleton]
  -- It is a duplicate exactly if it was known.
  · rw [hnames, hnodup, hduplicates]
    split
    next hknown => simp [hknown]
    next hnew => exact ⟨fun hnil => ⟨h.duplicates.mp hnil, hnew⟩, fun hboth => h.duplicates.mpr hboth.1⟩

/-- What registers no name changes nothing that is remembered. -/
theorem Remembers.other {builder builder' : SchemaBuilder} (h : Remembers calls builder)
    {next : BuilderCall} (hnext : next.registeredName? = none)
    (hregistered : builder'.registered = builder.registered)
    (hduplicates : builder'.duplicates = builder.duplicates) :
    Remembers (calls ++ [next]) builder' := by
  have hnames : (calls ++ [next]).filterMap BuilderCall.registeredName? =
      calls.filterMap BuilderCall.registeredName? := by
    simp [hnext]
  exact ⟨hnames ▸ hregistered ▸ h.registered, hnames ▸ hduplicates ▸ h.duplicates⟩

theorem ofCalls_remembers (calls : List BuilderCall) :
    Remembers calls (ofCalls query mutation subscription calls) := by
  refine ofCalls_induction (P := Remembers) ⟨fun _ => .rfl, by simp [new]⟩ ?_ calls
  intro calls builder next h
  cases next with
  | register registration => exact h.register registration
  | withExtraScalars | withConfig | resolver | subscriber | wrapResolver => exact h.other rfl rfl rfl

/-- **No name counts as a duplicate exactly if none was registered twice.** -/
theorem duplicates_ofCalls_eq_nil_iff :
    (ofCalls query mutation subscription calls).duplicates = [] ↔
      (calls.filterMap BuilderCall.registeredName?).Nodup :=
  (ofCalls_remembers calls).duplicates

/-- **The fields that callbacks were given for.** -/
theorem mem_targets_ofCalls {target : String × String} :
    target ∈ (ofCalls query mutation subscription calls).targets ↔
      target ∈ calls.filterMap BuilderCall.target? := by
  refine ofCalls_induction (P := fun calls builder => target ∈ builder.targets ↔
    target ∈ calls.filterMap BuilderCall.target?) .rfl ?_ calls
  intro calls builder next h
  rw [List.filterMap_append, List.mem_append, ← h]
  cases next with
  -- These calls are for no field.
  | register | withExtraScalars | withConfig =>
    exact ⟨.inl, fun hor => hor.elim id fun hmem => absurd hmem List.not_mem_nil⟩
  -- Each of these calls adds its own field to one of the three lists.
  | resolver | subscriber | wrapResolver =>
    simp only [call, resolver, subscriber, wrapResolver, targets, List.map_append, List.mem_append,
      List.map_cons, List.map_nil, List.filterMap_cons, List.filterMap_nil, BuilderCall.target?]
    tauto

/-! ### The table of types -/

theorem WellNamed.insert {types : Entries Registration} (h : WellNamed (definitions types))
    (registration : Registration) :
    WellNamed (definitions
      (Entries.insert types registration.definition.name registration)) := by
  have hkeys (table : Entries Registration) : Entries.keys (definitions table) = Entries.keys table := by
    simp [Entries.keys, definitions]
  refine ⟨?_, fun entry hmem => ?_⟩
  · rw [hkeys]
    exact Entries.nodup_keys_insert _ _ (hkeys types ▸ h.nodup)
  · obtain ⟨inserted, hinserted, rfl⟩ := List.mem_map.mp hmem
    rcases Entries.mem_insert hinserted with rfl | hold
    · rfl
    · exact h.name _ (List.mem_map_of_mem hold)

theorem WellNamed.insertScalars {types : Entries Registration} (h : WellNamed (definitions types))
    (scalars : List ScalarType) : WellNamed (definitions (insertScalars types scalars)) := by
  induction scalars generalizing types with
  | nil => exact h
  | cons scalar rest ih => exact ih (h.insert ⟨.scalar scalar, .none⟩)

/-- **The table of types** holds every type under its own name, and no name twice. -/
theorem definitions_ofCalls_wellNamed :
    WellNamed (definitions (ofCalls query mutation subscription calls).types) := by
  refine ofCalls_induction (P := fun _ builder => WellNamed (definitions builder.types)) ?_ ?_ calls
  · have hempty : WellNamed (definitions []) := ⟨List.nodup_nil, fun _ hmem => absurd hmem List.not_mem_nil⟩
    exact hempty.insertScalars ScalarType.builtins
  · intro calls builder next h
    cases next with
    | register registration => exact h.insert registration
    | withExtraScalars => exact h.insertScalars ScalarType.extras
    | withConfig | resolver | subscriber | wrapResolver => exact h

end SchemaBuilder

end GraphQL
