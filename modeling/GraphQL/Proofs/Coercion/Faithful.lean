import GraphQL.Document.Basic
import GraphQL.Proofs.Entries
import GraphQL.Scalar.Builtin
import GraphQL.Schema.TypeSystem

/-!
# Values that may be written or passed

A value of an input type is written in a document or passed as a variable. What is asked of a literal
for both to be possible, and of the types of a schema for both to mean the same.

Both ways end in the same scalars and enum types, and only what these do is left to be assumed. The
two assumptions are needed: a scalar that reads literals by rules of its own, or that makes null of
something, can be told from the outside which way its value came.

* `Literal.IsConstant` — the literals that can be passed as variables, with `Literal.constant` for
  their values;
* `ScalarType.Faithful` — a scalar for which literals and values of variables are the same, which
  `ScalarType.faithful_of_mem` shows of the scalars of the engine;
* `TypeSystem.ReadsAlike` — what is asked of all types.
-/

namespace GraphQL

namespace Literal

mutual

/-- Whether there is no variable in a literal, and no key twice in one of its objects. -/
def IsConstant : Literal → Prop
  | .var _ => False
  | .list items => ItemsConstant items
  | .object entries => (Entries.keys entries).Nodup ∧ EntriesConstant entries
  | .null | .bool _ | .number _ | .string _ | .enum _ => True

/-- `IsConstant` of every item. -/
def ItemsConstant : List Literal → Prop
  | [] => True
  | item :: rest => item.IsConstant ∧ ItemsConstant rest

/-- `IsConstant` of every entry. -/
def EntriesConstant : List (String × Literal) → Prop
  | [] => True
  | (_, literal) :: rest => literal.IsConstant ∧ EntriesConstant rest

end

/-- The value of a literal without variables. -/
def constant (literal : Literal) : Value := literal.toValue fun _ => .null

mutual

/-- The value of a constant literal is the same wherever it is written. -/
theorem toValue_eq_constant (lookup : String → Value) : ∀ (literal : Literal), literal.IsConstant →
    literal.toValue lookup = literal.toValue fun _ => .null
  | .var _, h => h.elim
  | .list items, h => by
    rw [toValue, toValue, toValueItems_eq_constant lookup items h]
  | .object entries, h => by
    rw [toValue, toValue, toValueEntries_eq_constant lookup entries h.2]
  | .null, _ | .bool _, _ | .number _, _ | .string _, _ | .enum _, _ => rfl

theorem toValueItems_eq_constant (lookup : String → Value) : ∀ (items : List Literal),
    ItemsConstant items → toValueItems lookup items = toValueItems (fun _ => .null) items
  | [], _ => rfl
  | item :: rest, h => by
    rw [toValueItems, toValueItems, toValue_eq_constant lookup item h.1,
      toValueItems_eq_constant lookup rest h.2]

theorem toValueEntries_eq_constant (lookup : String → Value) :
    ∀ (entries : List (String × Literal)), EntriesConstant entries →
      toValueEntries lookup entries = toValueEntries (fun _ => .null) entries
  | [], _ => rfl
  | (key, literal) :: rest, h => by
    rw [toValueEntries, toValueEntries, toValue_eq_constant lookup literal h.1,
      toValueEntries_eq_constant lookup rest h.2]

end

theorem toValueEntries_eq_map (lookup : String → Value) (entries : List (String × Literal)) :
    toValueEntries lookup entries = entries.map fun entry => (entry.1, entry.2.toValue lookup) := by
  induction entries with
  | nil => rw [toValueEntries]; rfl
  | cons entry rest ih => rw [toValueEntries, ih]; rfl

end Literal

namespace ScalarType

/-- A value other than null that is accepted as a literal is accepted as the value of a variable, is
the same to resolvers, and is not null to them. -/
def Faithful (scalar : ScalarType) : Prop :=
  ∀ raw value, raw ≠ .null → scalar.parseLiteral raw = .ok value →
    value ≠ .null ∧ scalar.parseValue raw = .ok value

/-- A scalar that reads literals and the values of variables alike is faithful if it never makes null of
them. -/
theorem faithful_of_parse {scalar : ScalarType} {parse : Value → Except ScalarError Value}
    (hliteral : scalar.parseLiteral = parse) (hvalue : scalar.parseValue = parse)
    (h : ∀ raw, parse raw ≠ .ok .null) : scalar.Faithful := by
  intro raw value _ hparsed
  rw [hliteral] at hparsed
  exact ⟨fun hnull => h raw (hnull ▸ hparsed), by rw [hvalue, hparsed]⟩

theorem parseIntNumber_ne_null (n : Number) : parseIntNumber n ≠ .ok .null := by
  fun_cases parseIntNumber n <;> nofun

theorem parseFloat_ne_null (raw : Value) : parseFloat raw ≠ .ok .null := by
  fun_cases parseFloat raw <;> nofun

theorem parseString_ne_null (raw : Value) : parseString raw ≠ .ok .null := by
  fun_cases parseString raw <;> nofun

theorem parseBoolean_ne_null (raw : Value) : parseBoolean raw ≠ .ok .null := by
  fun_cases parseBoolean raw <;> nofun

theorem parseId_ne_null (raw : Value) : parseId raw ≠ .ok .null := by
  fun_cases parseId raw <;> nofun

theorem parseTimestamp_ne_null (raw : Value) : parseTimestamp raw ≠ .ok .null := by
  fun_cases parseTimestamp raw <;> nofun

/-- `Int` accepts fewer literals than values of variables: a float without a fraction is no literal. -/
theorem int_faithful : int.Faithful := by
  intro raw value _ h
  change parseIntLiteral raw = .ok value at h
  change value ≠ .null ∧ parseIntValue raw = .ok value
  revert h
  fun_cases parseIntLiteral raw with
  | case1 n => exact fun h => ⟨fun hnull => parseIntNumber_ne_null (.int n) (hnull ▸ h), h⟩
  | case2 => exact nofun

/-- Any value is its own value, both ways. -/
theorem json_faithful : json.Faithful := fun _ _ hne h => ⟨Except.ok.inj h ▸ hne, h⟩

/-- **The scalars of the engine are faithful.** -/
theorem faithful_of_mem {scalar : ScalarType} (h : scalar ∈ builtins ++ extras) :
    scalar.Faithful := by
  simp only [builtins, extras, List.cons_append, List.nil_append, List.mem_cons,
    List.not_mem_nil, or_false] at h
  -- One case for each scalar: those that parse a text, and the integers and raw values, which do
  -- not.
  rcases h with rfl | rfl | rfl | rfl | rfl | rfl | rfl
  · exact int_faithful
  · exact faithful_of_parse rfl rfl parseFloat_ne_null
  · exact faithful_of_parse rfl rfl parseString_ne_null
  · exact faithful_of_parse rfl rfl parseBoolean_ne_null
  · exact faithful_of_parse rfl rfl parseId_ne_null
  · exact faithful_of_parse rfl rfl parseTimestamp_ne_null
  · exact json_faithful

end ScalarType

/-- What is asked of the types of a schema: its own scalars are faithful, and no enum value is null to
resolvers. -/
structure TypeSystem.ReadsAlike (types : TypeSystem) : Prop where
  scalars : ∀ scalar, .scalar scalar ∈ Entries.values types.types →
    scalar ∈ ScalarType.builtins ++ ScalarType.extras ∨ scalar.Faithful
  enums : ∀ type, .enum type ∈ Entries.values types.types →
    ∀ known ∈ Entries.values type.values.entries, known.value ≠ .null

namespace TypeSystem.ReadsAlike

variable {types : TypeSystem} {ty : TypeRef}

theorem mem_values {definition : TypeDefinition} (htype : types.namedType? ty = some definition) :
    definition ∈ Entries.values types.types :=
  List.mem_map_of_mem (f := Prod.snd) (Entries.get?_mem htype)

theorem faithful (h : types.ReadsAlike) {scalar : ScalarType}
    (htype : types.namedType? ty = some (.scalar scalar)) : scalar.Faithful :=
  (h.scalars scalar (mem_values htype)).elim ScalarType.faithful_of_mem id

theorem parse?_ne_null (h : types.ReadsAlike) {type : EnumType}
    (htype : types.namedType? ty = some (.enum type)) {name : String} {value : Value}
    (hvalue : type.parse? name = some value) : value ≠ .null := by
  rw [EnumType.parse?, Option.map_eq_some_iff] at hvalue
  obtain ⟨known, hknown, rfl⟩ := hvalue
  exact h.enums type (mem_values htype) known
    (List.mem_map_of_mem (f := Prod.snd) (Entries.get?_mem hknown))

end TypeSystem.ReadsAlike

end GraphQL
