import GraphQL.Config
import GraphQL.Resolver.Basic

/-!
# Schemas

A schema is a type system with the callbacks attached to its types and the settings of the engine.
-/

namespace GraphQL

/-- The callbacks of a field. -/
structure FieldHooks where
  resolver : Option Resolver
  subscriber : Option Subscriber

/-- A field without callbacks. -/
def FieldHooks.none : FieldHooks := ⟨.none, .none⟩

/-- The callbacks of a type: those of its fields, and the one that tells its object types apart. -/
structure TypeHooks where
  fields : Entries FieldHooks
  resolveType : Option TypeResolver

/-- A type without callbacks. -/
def TypeHooks.none : TypeHooks := ⟨[], .none⟩

namespace TypeHooks

/-- The callbacks of a field. -/
def field (hooks : TypeHooks) (name : String) : FieldHooks :=
  (Entries.get? hooks.fields name).getD .none

/-- Changes the callbacks of a field. -/
def modifyField (hooks : TypeHooks) (name : String) (f : FieldHooks → FieldHooks) : TypeHooks :=
  { hooks with fields := Entries.insert hooks.fields name (f (hooks.field name)) }

end TypeHooks

/-- A type system with its callbacks. -/
structure Schema where
  types : TypeSystem
  hooks : Entries TypeHooks
  config : Config

namespace Schema

/-- The callbacks of a type. -/
def typeHooks (schema : Schema) (typeName : String) : TypeHooks :=
  (Entries.get? schema.hooks typeName).getD .none

/-- The callbacks of a field. -/
def fieldHooks (schema : Schema) (typeName fieldName : String) : FieldHooks :=
  (schema.typeHooks typeName).field fieldName

end Schema

end GraphQL
