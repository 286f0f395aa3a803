import GraphQL.Schema.Builder

/-!
# What an accepted builder guarantees

`SchemaBuilder.finish` checks a builder and makes a schema of it. `SchemaBuilder.Accepted` lists
what has been checked when it does, and what the schema is made of.

* `accepted_of_finish` — a schema is only made of an accepted builder;
* `queryType?_isSome_of_finish` — in particular it has a query type;
* `attached_of_finish` — it has the callbacks of the builder.
-/

namespace GraphQL

variable {α β ε : Type}

/-- A sequence of two steps succeeds if each of them does. -/
theorem bind_eq_ok {first : Except ε α} {next : α → Except ε β} {result : β} :
    (first >>= next) = .ok result ↔ ∃ value, first = .ok value ∧ next value = .ok result := by
  cases first <;> simp [bind, Except.bind]

/-- A loop of checks succeeds if each check does. -/
theorem forM_eq_ok {check : α → Except ε Unit} {items : List α} {u : Unit} :
    items.forM check = .ok u ↔ ∀ item ∈ items, check item = .ok () := by
  induction items with
  | nil => exact ⟨fun _ _ hmem => absurd hmem List.not_mem_nil, fun _ => rfl⟩
  | cons item rest ih =>
    change (check item >>= fun _ => rest.forM check) = _ ↔ _
    rw [List.forall_mem_cons, bind_eq_ok]
    exact ⟨fun ⟨_, hitem, hrest⟩ => ⟨hitem, ih.mp hrest⟩, fun ⟨hitem, hrest⟩ =>
      ⟨(), hitem, ih.mpr hrest⟩⟩

namespace SchemaBuilder

/-- What has been checked of a builder when a schema is made of it, and what the schema holds. -/
structure Accepted (builder : SchemaBuilder) (schema : Schema) : Prop where
  duplicates : builder.duplicates = []
  roots : ∀ name ∈ builder.roots, checkRoot (definitions builder.types) name = .ok ()
  uses : ∀ use ∈ (Entries.values (definitions builder.types)).flatMap typeUses,
    checkUse (definitions builder.types) use = .ok ()
  memberships : ∀ definition ∈ Entries.values (definitions builder.types),
    checkMembership (definitions builder.types) definition = .ok ()
  types : schema.types = {
    types := definitions builder.types
    queryName := builder.queryName
    mutationName := builder.mutationName
    subscriptionName := builder.subscriptionName
    possible := possibleTypes (definitions builder.types) }
  config : schema.config = builder.config

/-- **A schema is only made of an accepted builder.** -/
theorem accepted_of_finish {builder : SchemaBuilder} {schema : Schema}
    (h : builder.finish = .ok schema) : builder.Accepted schema := by
  unfold finish at h
  cases hduplicates : builder.duplicates with
  | cons name rest =>
    rw [hduplicates] at h
    exact absurd h (by simp [bind, Except.bind, throw, throwThe, MonadExceptOf.throw])
  | nil =>
    rw [hduplicates] at h
    obtain ⟨_, hroots, h⟩ := bind_eq_ok.mp h
    -- The callbacks are attached, one table after the other.
    obtain ⟨_, _, h⟩ := bind_eq_ok.mp h
    obtain ⟨_, _, h⟩ := bind_eq_ok.mp h
    obtain ⟨_, _, h⟩ := bind_eq_ok.mp h
    obtain ⟨_, huses, h⟩ := bind_eq_ok.mp h
    obtain ⟨_, hmemberships, h⟩ := bind_eq_ok.mp h
    obtain rfl := Except.ok.inj h
    exact ⟨hduplicates, forM_eq_ok.mp hroots, forM_eq_ok.mp huses, forM_eq_ok.mp hmemberships,
      rfl, rfl⟩

/-- A schema has the callbacks of its builder, which are attached one table after the other. -/
theorem attached_of_finish {builder : SchemaBuilder} {schema : Schema}
    (h : builder.finish = .ok schema) :
    ∃ resolved subscribed wrapped,
      attach (fun resolver hooks => { hooks with resolver := some resolver }) builder.types
        builder.resolvers = .ok resolved ∧
      attach (fun subscriber hooks => { hooks with subscriber := some subscriber }) resolved
        builder.subscribers = .ok subscribed ∧
      attach (fun wrapper hooks =>
          { hooks with resolver := some (wrapper (hooks.resolver.getD .standard)) }) subscribed
        builder.wrappers = .ok wrapped ∧
      schema.hooks = wrapped.map fun entry => (entry.1, entry.2.hooks) := by
  have haccepted := accepted_of_finish h
  unfold finish at h
  rw [haccepted.duplicates] at h
  -- The checks come before and after the three tables, and hand nothing on.
  obtain ⟨_, -, h⟩ := bind_eq_ok.mp h
  obtain ⟨resolved, hresolved, h⟩ := bind_eq_ok.mp h
  obtain ⟨subscribed, hsubscribed, h⟩ := bind_eq_ok.mp h
  obtain ⟨wrapped, hwrapped, h⟩ := bind_eq_ok.mp h
  obtain ⟨_, -, h⟩ := bind_eq_ok.mp h
  obtain ⟨_, -, h⟩ := bind_eq_ok.mp h
  obtain rfl := Except.ok.inj h
  exact ⟨resolved, subscribed, wrapped, hresolved, hsubscribed, hwrapped, rfl⟩

/-- An accepted root type is an object type. -/
theorem Accepted.object?_isSome {builder : SchemaBuilder} {schema : Schema}
    (h : builder.Accepted schema) {name : String} (hmem : name ∈ builder.roots) :
    (schema.types.object? name).isSome := by
  have hroot := h.roots name hmem
  rw [checkRoot] at hroot
  rw [h.types, TypeSystem.object?, TypeSystem.type?]
  split at hroot
  next hobject =>
    -- A root name that is not found, or is that of another kind of type, has been refused.
    cases htype : Entries.get? (definitions builder.types) name with
    | none => rw [htype] at hobject; exact absurd hobject (by simp)
    | some definition =>
      rw [htype] at hobject
      cases definition with
      | object type => rfl
      | _ => exact absurd hobject (by simp [TypeDefinition.isObject])
  next => exact absurd hroot (by simp)

end SchemaBuilder

/-- An accepted schema has a query type. -/
theorem queryType?_isSome_of_finish {builder : SchemaBuilder} {schema : Schema}
    (h : builder.finish = .ok schema) : schema.types.queryType?.isSome := by
  have haccepted := SchemaBuilder.accepted_of_finish h
  have hname : schema.types.queryName = builder.queryName := by rw [haccepted.types]
  rw [TypeSystem.queryType?, hname]
  exact haccepted.object?_isSome (by simp [SchemaBuilder.roots])

end GraphQL
