import GraphQL.Proofs.Coroutine.Polls
import GraphQL.Proofs.Execution.Answer
import GraphQL.Proofs.Execution.Positions
import Mathlib.Algebra.GroupWithZero.Nat

/-!
# Settlements of resolvers

Which resolvers an operation calls, how long each of them takes and what it ends with, found by plain
recursion like the completion tree of the operation.

* `Resolver.yields` — how many visits a resolver takes after the one in which it is called;
* `Settlement`, `SettlementTree` — what the resolvers of the fields inside a place do;
* `SettlementTree.cost` — the critical path: siblings side by side take as long as the slowest of
  them, and what is inside a field starts when its resolver has settled;
* `SettlementTree.settlements` — all of them in document order;
* `ExecutionContext.rootMembers` — the root fields that are executed, `ExecutionContext.cost` — the
  critical path of the operation, and `ExecutionContext.settlements` — the settlements inside it.
-/

namespace GraphQL

/-- How many more visits the resolution takes that a resolver returns. One that panics at its call
returns none. -/
def Resolver.yields (resolver : Resolver) (resolverContext : ResolverContext) : Nat :=
  match resolver resolverContext with
  | .returned _ resolution => resolution.toCoroutine.polls
  | .panicked _ _ => 0

/-- What the resolver of a field does, behind all interceptors. -/
structure Settlement where
  path : QueryPath
  /-- How many visits it takes after the one in which it is called. -/
  yields : Nat
  /-- What it ends with. -/
  result : Except Abort ResolverResult

/-- The place of the field in the response. -/
def Settlement.place (settlement : Settlement) : ErrorPath := settlement.path.toErrorPath

/-- A field of an object or an item of a list, with what its resolver does. There is no resolver for
items, for `__typename`, for a field that is not defined and for one whose arguments fail. -/
structure Member (tree : Type) where
  settlement : Option Settlement
  inner : tree

/-- The resolvers that are called inside a place: those of its fields or items, and inside of these. -/
inductive SettlementTree where
  | node (members : List (Member SettlementTree))

namespace SettlementTree

/-- A place without any place inside: a leaf, null or a failure. -/
def leaf : SettlementTree := .node []

/-- To prove something of all trees, prove it of a place from what holds inside of its members. -/
@[elab_as_elim, induction_eliminator]
theorem induction {motive : SettlementTree → Prop}
    (node : ∀ members, (∀ member ∈ members, motive member.inner) → motive (.node members))
    (tree : SettlementTree) : motive tree :=
  -- Of a list of members the recursor is asked for what holds inside of each of them.
  @SettlementTree.rec motive (fun members => ∀ member ∈ members, motive member.inner)
    (fun member => motive member.inner) node (fun _ hmem => absurd hmem List.not_mem_nil)
    (fun _ _ hhead htail _ hmem => by
      rcases List.mem_cons.mp hmem with rfl | hmem
      · exact hhead
      · exact htail _ hmem)
    (fun _ _ hinner => hinner) tree

mutual

/-- How long the place takes: as long as the slowest place inside. -/
def cost : SettlementTree → Nat
  | .node members => costAmong members
termination_by structural tree => tree

/-- How long the slowest of some members takes. Each takes as long as its resolver and then as long as
what is inside. -/
def costAmong : List (Member SettlementTree) → Nat
  | [] => 0
  | ⟨settlement, inner⟩ :: rest =>
      max (settlement.elim 0 Settlement.yields + cost inner) (costAmong rest)
termination_by structural members => members

end

mutual

/-- What the resolvers inside the place do, in document order. -/
def settlements : SettlementTree → List Settlement
  | .node members => settlementsAmong members
termination_by structural tree => tree

/-- What the resolvers of some members do, and those inside of them. -/
def settlementsAmong : List (Member SettlementTree) → List Settlement
  | [] => []
  | ⟨settlement, inner⟩ :: rest => settlement.toList ++ settlements inner ++ settlementsAmong rest
termination_by structural members => members

end

end SettlementTree

namespace Member

/-- How long a member takes: as long as its resolver and then as long as what is inside. -/
def cost (member : Member SettlementTree) : Nat :=
  member.settlement.elim 0 Settlement.yields + member.inner.cost

/-- What the resolver of a member does, and those inside of it. -/
def settlements (member : Member SettlementTree) : List Settlement :=
  member.settlement.toList ++ member.inner.settlements

/-- A member for which no resolver is called. -/
def idle : Member SettlementTree := ⟨none, .leaf⟩

end Member

namespace SettlementTree

theorem costAmong_eq_foldr (members : List (Member SettlementTree)) :
    costAmong members = (members.map Member.cost).foldr max 0 := by
  induction members with
  | nil => rfl
  | cons member rest ih => exact congrArg (max member.cost) ih

theorem settlementsAmong_eq_flatMap (members : List (Member SettlementTree)) :
    settlementsAmong members = members.flatMap Member.settlements := by
  induction members with
  | nil => rfl
  | cons member rest ih => exact congrArg (member.settlements ++ ·) ih

end SettlementTree

/-! ### The settlements of an operation -/

/-- What the resolvers do inside an object of a type, for some selection sets at a place. -/
abbrev Settle := ObjectType → List (List Selection) → FieldValue → QueryPath → SettlementTree

namespace SettlementTree

/-- Inside an object, if its type accepts the value. -/
def ofObject (settle : Settle) (object : ObjectType) (info : ResolveInfo) (path : QueryPath)
    (value : FieldValue) : SettlementTree :=
  let selected := settle object (info.fieldNodes.map FieldNode.selections) value path
  match object.isTypeOf with
  | none => selected
  | some isTypeOf =>
      match isTypeOf value with
      | .returned _ true => selected
      | .returned _ false | .panicked _ _ => .leaf

/-- Inside a value of an interface or union type. -/
def ofAbstract (ctx : ExecutionContext) (settle : Settle) (abstractType : String)
    (info : ResolveInfo) (path : QueryPath) (value : FieldValue) : SettlementTree :=
  let resolveType := (ctx.schema.typeHooks abstractType).resolveType.getD ctx.typeResolver
  match resolveType value info abstractType with
  | .panicked _ _ => .leaf
  | .returned _ name =>
      match Completion.concreteType ctx.schema.types abstractType name with
      | .ok object => ofObject settle object info path value
      | .error _ => .leaf

/-- Inside a value that is not null, against a type without wrappers. -/
def ofNamed (ctx : ExecutionContext) (settle : Settle) (typeName : String) (info : ResolveInfo)
    (path : QueryPath) (value : FieldValue) : SettlementTree :=
  match ctx.schema.types.type? typeName with
  | some (.object object) => ofObject settle object info path value
  | some (.interface _) | some (.union _) => ofAbstract ctx settle typeName info path value
  | some (.scalar _) | some (.enum _) | some (.inputObject _) | none => .leaf

/-- Inside a value, against a type given as its lists from the outermost one on. -/
def ofLayers (ctx : ExecutionContext) (settle : Settle) (typeName : String) (info : ResolveInfo) :
    List ListWrapping → QueryPath → FieldValue → SettlementTree
  | [], path, value => if value.isNull then .leaf else ofNamed ctx settle typeName info path value
  | _ :: inner, path, value =>
      if value.isNull then .leaf
      else
        match Completion.items? value with
        | some items => .node (items.mapIdx fun index item =>
            ⟨none, ofLayers ctx settle typeName info inner (path.index index) item⟩)
        | none => .leaf

/-- Inside the raw value that the resolver of a field has ended with. -/
def ofResult (ctx : ExecutionContext) (settle : Settle) (info : ResolveInfo) :
    Except Abort ResolverResult → SettlementTree
  | .ok (.ok value) =>
      ofLayers ctx settle info.returnType.name info
        info.returnType.wrapping.layers.lists.reverse info.path value
  | .ok (.error _) | .error _ => .leaf

end SettlementTree

namespace ExecutionContext

/-- What the resolver of a field does that its object type defines. -/
def settlement (ctx : ExecutionContext) (object : ObjectType) (parent : FieldValue) (atRoot : Bool)
    (node : Field) (info : ResolveInfo) (arguments : Arguments) : Settlement where
  path := info.path
  yields := (ctx.middleware.wrap object.name node.name
    (ctx.baseResolver object.name node.name atRoot)).yields ⟨parent, arguments, info, ctx.context⟩
  result := ctx.resolved object parent atRoot node info arguments

/-- A field that its object type defines. -/
def definedMember (ctx : ExecutionContext) (settle : Settle) (object : ObjectType)
    (parent : FieldValue) (atRoot : Bool) (definition : FieldDefinition) (node : Field)
    (info : ResolveInfo) : Member SettlementTree :=
  match Coercion.coerceArguments ctx.schema.types definition node ctx.vars with
  | .error _ => .idle
  | .ok arguments =>
      let settlement := ctx.settlement object parent atRoot node info arguments
      ⟨some settlement, .ofResult ctx settle info settlement.result⟩

/-- The selections under one response key. -/
def fieldMember (ctx : ExecutionContext) (settle : Settle) (object : ObjectType)
    (parent : FieldValue) (parentPath : QueryPath) (key : String) (nodes : List Field) :
    Member SettlementTree :=
  match nodes with
  | [] => .idle
  | node :: _ =>
      if node.name == "__typename" then .idle
      else
        match object.field? node.name with
        | none => .idle
        | some definition =>
            ctx.definedMember settle object parent parentPath.isEmpty definition node
              (ctx.resolveInfo object definition node.name nodes (parentPath.field key object.name))

/-- The fields of an object. -/
def groupMembers (ctx : ExecutionContext) (settle : Settle) (object : ObjectType)
    (parent : FieldValue) (path : QueryPath) (groups : FieldGroups) :
    List (Member SettlementTree) :=
  groups.map fun group => ctx.fieldMember settle object parent path group.1 group.2

/-- Inside objects that nest at most as deep as the given number. -/
def settleWithin (ctx : ExecutionContext) : Nat → Settle
  | 0 => fun _ _ _ _ => .leaf
  | depth + 1 => fun object selectionSets value path =>
      .node (ctx.groupMembers (settleWithin ctx depth) object value path
        (ctx.collectFields object selectionSets))

/-- The root fields that are executed: those of the part of the completion tree that is reached. -/
def rootMembers (ctx : ExecutionContext) : List (Member SettlementTree) :=
  match ctx.rootType? with
  | none => []
  | some root =>
      (ctx.groupMembers (ctx.settleWithin ctx.depthLimit) root ctx.rootValue .empty
        (ctx.collectFields root [ctx.operation.selections])).take ctx.reachedTree.places.length

/-- How long the operation takes: the root fields of a serial mutation take their time one after the
other, and those of other operations side by side. -/
def cost (ctx : ExecutionContext) : Nat :=
  let costs := ctx.rootMembers.map Member.cost
  if ctx.isSerial then costs.sum else costs.foldr max 0

/-- What the resolvers do that are called while the operation is executed. -/
def settlements (ctx : ExecutionContext) : List Settlement :=
  ctx.rootMembers.flatMap Member.settlements

end ExecutionContext

end GraphQL
