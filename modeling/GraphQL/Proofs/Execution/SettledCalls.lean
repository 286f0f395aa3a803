import GraphQL.Proofs.Execution.GrownTrees
import GraphQL.Proofs.Execution.Settlements

/-!
# Calls and settlements

The settlements of an operation leave out no call of a resolver and add none: there is one for every
call, at the same place and in the same order. So what is said of all settlements is said of whatever the
resolvers of an execution end with.

* `SettlementTree.Mirrors` — the settlements inside a place are at the places of its tree, and its
  objects are made of the fields that are collected for them;
* `settleWithin_mirrors`, `exists_rootFields` — the run lemma, for every depth, and the operation;
* `SettlementTree.Covers`, `Member.Covers` — there is a settlement for every call inside a place;
* `paths_settlements` — the settlements of an operation are at the places of its calls.
-/

namespace GraphQL

/-- The tree of an object at a place is made of the fields that are collected for it, for some value of
some type and some selection sets. -/
def ExecutionContext.IsSelection (ctx : ExecutionContext) (place : ErrorPath) (groups : FieldGroups)
    (tree : CompletionTree) : Prop :=
  ∃ grow object value path selectionSets, QueryPath.toErrorPath path = place ∧
    groups = ctx.collectFields object selectionSets ∧
    tree = ctx.groupsTree grow object value path groups

/-- The settlements inside the place at a path are those of its places, and of what is inside of
these. -/
inductive SettlementTree.Mirrors (ctx : ExecutionContext) :
    ErrorPath → SettlementTree → CompletionTree → Prop
  | leaf {base : ErrorPath} {tree : CompletionTree} (h : tree.places = []) : Mirrors ctx base .leaf tree
  | branch {base : ErrorPath} {shape : Shape}
      {pairs : List (Member SettlementTree × Place CompletionTree)}
      (hselected : shape = .object →
        ∃ groups, ctx.IsSelection base groups (.branch shape (pairs.map Prod.snd)))
      (hcall : ∀ pair ∈ pairs,
        pair.1.settlement.map Settlement.path = pair.2.call.map ResolverCall.path)
      (hlocated : ∀ pair ∈ pairs, ∀ settlement ∈ pair.1.settlement,
        settlement.place = base ++ [pair.2.segment])
      (hinner : ∀ pair ∈ pairs, Mirrors ctx (base ++ [pair.2.segment]) pair.1.inner pair.2.tree) :
      Mirrors ctx base (.node (pairs.map Prod.fst)) (.branch shape (pairs.map Prod.snd))

/-- The settlements at and inside of a member are those of a place of the list or object at a path. -/
structure Member.Mirrors (ctx : ExecutionContext) (base : ErrorPath) (member : Member SettlementTree)
    (place : Place CompletionTree) : Prop where
  call : member.settlement.map Settlement.path = place.call.map ResolverCall.path
  located : ∀ settlement ∈ member.settlement, settlement.place = base ++ [place.segment]
  inner : member.inner.Mirrors ctx (base ++ [place.segment]) place.tree

/-- The settlements of nested selections are those of their trees. -/
def SettleMirrors (ctx : ExecutionContext) (settle : Settle) (grow : Grow) : Prop :=
  ∀ object selectionSets value path,
    (settle object selectionSets value path).Mirrors ctx (QueryPath.toErrorPath path)
      (grow object selectionSets value path)

namespace SettlementTree

variable {ctx : ExecutionContext} {base : ErrorPath}

/-- Members mirror places one by one. -/
theorem Mirrors.node {ι : Type} {member : ι → Member SettlementTree} {place : ι → Place CompletionTree}
    {shape : Shape} {items : List ι}
    (hselected : shape = .object →
      ∃ groups, ctx.IsSelection base groups (.branch shape (items.map place)))
    (h : ∀ i ∈ items, (member i).Mirrors ctx base (place i)) :
    (SettlementTree.node (items.map member)).Mirrors ctx base (.branch shape (items.map place)) := by
  have hpairs := @Mirrors.branch ctx base shape (items.map fun i => (member i, place i))
  simp only [List.map_map, List.forall_mem_map] at hpairs
  exact hpairs hselected (fun i hi => (h i hi).call) (fun i hi => (h i hi).located)
    fun i hi => (h i hi).inner

/-- The requirement of a value changes nothing inside of it. -/
theorem Mirrors.required {settled : SettlementTree} {tree : CompletionTree} (nonNull : Bool)
    (info : ResolveInfo) (path : QueryPath) (h : settled.Mirrors ctx base tree) :
    settled.Mirrors ctx base (CompletionTree.required nonNull info path tree) := by
  by_cases htree : tree = .leaf .null
  · subst htree
    cases h with
    | leaf _ => cases nonNull <;> exact .leaf rfl
  · rw [CompletionTree.required_of_ne htree]
    exact h

variable {settle : Settle} {grow : Grow} (h : SettleMirrors ctx settle grow)
include h

theorem ofObject_mirrors (object : ObjectType) (info : ResolveInfo) (path : QueryPath)
    (value : FieldValue) :
    (ofObject settle object info path value).Mirrors ctx path.toErrorPath
      (CompletionTree.ofObject grow object info path value) := by
  unfold ofObject CompletionTree.ofObject
  -- Whoever is asked about the value decides the same for the settlements as for the tree.
  cases object.isTypeOf with
  | none => exact h object _ value path
  | some isTypeOf =>
    dsimp only
    cases isTypeOf value with
    | panicked log message => exact .leaf rfl
    | returned log accepted =>
      cases accepted with
      | true => exact h object _ value path
      | false => exact .leaf rfl

theorem ofAbstract_mirrors (abstractType : String) (info : ResolveInfo) (path : QueryPath)
    (value : FieldValue) :
    (ofAbstract ctx settle abstractType info path value).Mirrors ctx path.toErrorPath
      (CompletionTree.ofAbstract ctx grow abstractType info path value) := by
  unfold ofAbstract CompletionTree.ofAbstract
  dsimp only
  -- Both name the same object type, or none.
  cases (ctx.schema.typeHooks abstractType).resolveType.getD ctx.typeResolver value info
      abstractType with
  | panicked log message => exact .leaf rfl
  | returned log name =>
    dsimp only
    cases Completion.concreteType ctx.schema.types abstractType name with
    | error fault => exact .leaf rfl
    | ok object => exact ofObject_mirrors h object info path value

theorem ofNamed_mirrors (typeName : String) (info : ResolveInfo) (path : QueryPath)
    (value : FieldValue) :
    (ofNamed ctx settle typeName info path value).Mirrors ctx path.toErrorPath
      (CompletionTree.ofNamed ctx grow typeName info path value) := by
  unfold ofNamed CompletionTree.ofNamed
  cases ctx.schema.types.type? typeName with
  | none => exact .leaf rfl
  | some definition =>
    -- Leaf types call no resolver inside.
    cases definition with
    | scalar scalar =>
      refine .leaf ?_
      unfold CompletionTree.ofScalar
      dsimp only
      split
      · rfl
      · split <;> rfl
    | enum type =>
      refine .leaf ?_
      unfold CompletionTree.ofEnum
      dsimp only
      split <;> rfl
    | object object => exact ofObject_mirrors h object info path value
    | interface _ | union _ => exact ofAbstract_mirrors h typeName info path value
    | inputObject _ => exact .leaf rfl

/-- **Values of any type.** The induction is on the list wrappers of the type. No resolver is called
for an item, so an item is a member without calls of its own, and its path goes on from that of the
list. -/
theorem ofLayers_mirrors (typeName : String) (innerRequired : Bool) (info : ResolveInfo)
    (wrappers : List ListWrapping) (path : QueryPath) (value : FieldValue) :
    (ofLayers ctx settle typeName info wrappers path value).Mirrors ctx path.toErrorPath
      (CompletionTree.ofLayers ctx grow typeName innerRequired info wrappers path value) := by
  induction wrappers generalizing path value with
  | nil =>
    rw [ofLayers, CompletionTree.ofLayers]
    refine Mirrors.required _ info path ?_
    split
    · exact .leaf rfl
    · exact ofNamed_mirrors h typeName info path value
  | cons wrapper inner ih =>
    rw [ofLayers, CompletionTree.ofLayers]
    split
    · exact Mirrors.required _ info path (.leaf rfl)
    · cases Completion.items? value with
      | none => exact .leaf rfl
      | some items =>
        dsimp only
        rw [List.mapIdx_eq_zipIdx_map, List.mapIdx_eq_zipIdx_map]
        refine .node (fun hshape => Shape.noConfusion hshape) fun i _ => ?_
        -- No resolver is called for an item.
        refine ⟨rfl, fun _ hmem => absurd hmem (Option.not_mem_none _), ?_⟩
        have hpath : (path.index i.2).toErrorPath = path.toErrorPath ++ [.index i.2] :=
          QueryPath.segments_child ..
        rw [← hpath]
        exact ih (path.index i.2) i.1

end SettlementTree

namespace ExecutionContext

variable {ctx : ExecutionContext}

section Fields

variable {settle : Settle} {grow : Grow} (h : SettleMirrors ctx settle grow)
include h

/-- A field that its object type defines is the member at its place: it makes one call, at the path
of the place, and everything further inside is at longer paths. -/
theorem definedMember_mirrors {base : ErrorPath} (object : ObjectType) (parent : FieldValue)
    (atRoot : Bool) (key : String) (definition : FieldDefinition) (node : Field) {info : ResolveInfo}
    (hpath : info.path.toErrorPath = base ++ [.field key]) :
    (ctx.definedMember settle object parent atRoot definition node info).Mirrors ctx base
      (ctx.definedPlace grow object parent atRoot key definition node info) := by
  unfold definedMember definedPlace
  cases Coercion.coerceArguments ctx.schema.types definition node ctx.vars with
  | error failure =>
    cases failure with
    | endless => exact ⟨rfl, fun settlement hmem => (nomatch hmem), .leaf rfl⟩
    | invalid error => exact ⟨rfl, fun settlement hmem => (nomatch hmem), .leaf rfl⟩
  | ok arguments =>
    -- The field has a call and a settlement of its own.
    refine ⟨rfl, fun settlement hmem => ?_, ?_⟩
    · obtain rfl := Option.mem_some.mp hmem
      exact hpath
    · dsimp only
      rw [← hpath]
      cases hresult : ctx.resolved object parent atRoot node info arguments with
      | error why =>
        simp only [settlement, hresult]
        exact .leaf rfl
      | ok result =>
        simp only [settlement, hresult]
        cases result with
        | error error => exact .leaf rfl
        | ok value => exact SettlementTree.ofLayers_mirrors h _ _ info _ info.path value

theorem fieldMember_mirrors (object : ObjectType) (parent : FieldValue) (path : QueryPath)
    (key : String) (nodes : List Field) :
    (ctx.fieldMember settle object parent path key nodes).Mirrors ctx path.toErrorPath
      (ctx.fieldPlace grow object parent path key nodes) := by
  -- Where no resolver is called, the place has nothing inside either.
  have hidle : ∀ nonNull tree, CompletionTree.places tree = [] →
      Member.idle.Mirrors ctx path.toErrorPath ⟨.field key, nonNull, none, tree⟩ :=
    fun _ _ htree => ⟨rfl, fun settlement hmem => (nomatch hmem), .leaf htree⟩
  cases nodes with
  | nil => exact hidle _ _ rfl
  | cons node others =>
    unfold fieldMember fieldPlace
    dsimp only
    split
    · exact hidle _ _ rfl
    · cases object.field? node.name with
      | none => exact hidle _ _ rfl
      | some definition =>
        exact definedMember_mirrors h object parent _ key definition node
          (QueryPath.segments_child ..)

/-- The fields that are collected for an object. -/
theorem groupMembers_mirror (object : ObjectType) (parent : FieldValue) (path : QueryPath)
    (selectionSets : List (List Selection)) :
    let groups := ctx.collectFields object selectionSets
    (SettlementTree.node (ctx.groupMembers settle object parent path groups)).Mirrors ctx
      path.toErrorPath (ctx.groupsTree grow object parent path groups) :=
  .node (fun _ => ⟨_, grow, object, parent, path, selectionSets, rfl, rfl, rfl⟩)
    fun group _ => fieldMember_mirrors h object parent path group.1 group.2

end Fields

/-- **Nested selections.** The induction is on the depth that is left. -/
theorem settleWithin_mirrors (depth : Nat) :
    SettleMirrors ctx (ctx.settleWithin depth) (ctx.growWithin depth) := by
  induction depth with
  | zero => exact fun _ _ _ _ => .leaf rfl
  | succ depth ih =>
    intro object selectionSets value path
    exact groupMembers_mirror ih object value path selectionSets

/-- **The root fields** of an operation, and those of them that are reached. Members and places are
paired as they are collected. Whether they run side by side or in turn, the reached ones are an
initial part, and as long for members as for places. -/
theorem exists_rootFields {root : ObjectType} (hroot : ctx.rootType? = some root) :
    ∃ fields reached : List (Member SettlementTree × Place CompletionTree), reached <+: fields ∧
      (∀ field ∈ fields, field.1.Mirrors ctx [] field.2) ∧
      (∃ groups, ctx.IsSelection [] groups ctx.tree) ∧
      ctx.tree = .branch .object (fields.map Prod.snd) ∧
      ctx.rootMembers = reached.map Prod.fst ∧
      ctx.reachedTree = .branch .object (reached.map Prod.snd) := by
  let groups := ctx.collectFields root [ctx.operation.selections]
  let place (group : String × List Field) : Place CompletionTree :=
    ctx.fieldPlace (ctx.growWithin ctx.depthLimit) root ctx.rootValue .empty group.1 group.2
  let member (group : String × List Field) : Member SettlementTree :=
    ctx.fieldMember (ctx.settleWithin ctx.depthLimit) root ctx.rootValue .empty group.1 group.2
  have htree : ctx.tree = .branch .object (groups.map place) := by
    rw [tree, hroot]
    rfl
  have hshape : ctx.reachedTree = .branch .object ctx.reachedTree.places := by
    rw [reachedTree, htree]
    split <;> rfl
  -- The places that are reached are the first ones, and so are the members.
  have hinitial : ctx.reachedTree.places <+: groups.map place := by
    rw [reachedTree, htree]
    split
    · exact CompletionTree.places_inTurn_initial _
    · exact List.prefix_rfl
  -- Each root field is paired with its place, and as many pairs are taken as places are reached.
  let fields := groups.map fun group => (member group, place group)
  refine ⟨fields, fields.take ctx.reachedTree.places.length, List.take_prefix _ _, ?_, ?_, ?_, ?_, ?_⟩
  · rw [List.forall_mem_map]
    exact fun group _ =>
      fieldMember_mirrors (settleWithin_mirrors ctx.depthLimit) root ctx.rootValue .empty group.1
        group.2
  · exact ⟨groups, ctx.growWithin ctx.depthLimit, root, ctx.rootValue, .empty,
      [ctx.operation.selections], rfl, rfl, htree⟩
  · rw [htree, List.map_map]
    rfl
  · rw [rootMembers, hroot, ← List.map_take, List.map_map, List.map_take]
    rfl
  · rw [← List.map_take, List.map_map]
    have hplaces : ctx.reachedTree.places =
        (groups.take ctx.reachedTree.places.length).map place := by
      rw [List.map_take]
      exact List.prefix_iff_eq_take.mp hinitial
    exact hshape.trans (congrArg (CompletionTree.branch .object) hplaces)

end ExecutionContext

/-! ### Calls -/

/-- There is a settlement for every call inside a place. -/
def SettlementTree.Covers (settled : SettlementTree) (tree : CompletionTree) : Prop :=
  settled.settlements.map Settlement.path = tree.calls.map ResolverCall.path

/-- There is a settlement for every call at or inside a place. -/
def Member.Covers (member : Member SettlementTree) (place : Place CompletionTree) : Prop :=
  member.settlements.map Settlement.path = place.calls.map ResolverCall.path

theorem Member.covers {member : Member SettlementTree} {place : Place CompletionTree}
    (hcall : member.settlement.map Settlement.path = place.call.map ResolverCall.path)
    (hinner : member.inner.Covers place.tree) : member.Covers place := by
  rw [Covers, Member.settlements, Place.calls, List.map_append, List.map_append, hinner]
  congr 1
  rw [← Option.toList_map, ← Option.toList_map, hcall]

/-- Members cover places one by one. -/
theorem SettlementTree.node_covers {pairs : List (Member SettlementTree × Place CompletionTree)}
    (shape : Shape) (h : ∀ pair ∈ pairs, pair.1.Covers pair.2) :
    (node (pairs.map Prod.fst)).Covers (.branch shape (pairs.map Prod.snd)) := by
  rw [Covers, settlements, settlementsAmong_eq_flatMap, CompletionTree.calls,
    CompletionTree.callsAmong_eq_flatMap, List.flatMap_map, List.flatMap_map, List.map_flatMap,
    List.map_flatMap]
  exact List.flatMap_congr h

/-- **There is a settlement for every call**, at the same place and in the same order. -/
theorem SettlementTree.Mirrors.covers {ctx : ExecutionContext} {base : ErrorPath}
    {settled : SettlementTree} {tree : CompletionTree} (h : settled.Mirrors ctx base tree) :
    settled.Covers tree := by
  induction h with
  | @leaf base tree hleaf =>
    cases tree with
    | branch shape places =>
      obtain rfl : places = [] := hleaf
      rfl
    | _ => rfl
  | branch _ hcall _ _ ih =>
    exact node_covers _ fun pair hmem => Member.covers (hcall pair hmem) (ih pair hmem)

/-- **The settlements of an operation are at the places of its calls**, in the same order. -/
theorem ExecutionContext.paths_settlements (ctx : ExecutionContext) :
    ctx.settlements.map Settlement.path = ctx.reachedTree.calls.map ResolverCall.path := by
  -- Without a root type nothing is settled.
  cases hroot : ctx.rootType? with
  | none =>
    rw [settlements, rootMembers, hroot, reachedTree_of_rootType_none hroot]
    rfl
  | some root =>
    -- The members that are reached mirror their places, and are therefore settled as these call.
    obtain ⟨fields, reached, hinitial, hfields, -, -, hmembers, hreached⟩ := exists_rootFields hroot
    have hcovers : (SettlementTree.node (reached.map Prod.fst)).Covers
        (.branch .object (reached.map Prod.snd)) := by
      refine SettlementTree.node_covers .object fun field hmem => ?_
      have hfield := hfields field (hinitial.subset hmem)
      exact Member.covers hfield.call hfield.inner.covers
    rw [← hreached, ← hmembers, SettlementTree.Covers, SettlementTree.settlements,
      SettlementTree.settlementsAmong_eq_flatMap] at hcovers
    exact hcovers

end GraphQL
