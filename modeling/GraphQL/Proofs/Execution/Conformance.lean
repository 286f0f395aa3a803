import GraphQL.Proofs.Execution.Answer
import GraphQL.Proofs.Execution.Collection

/-!
# Data conform to the schema and the selection

Resolvers, type resolvers and serializers may come up with anything. What is left of it in the data
has the shape that the operation asks for, and the types that the schema declares.

`ConformsTo` and its companions say so without reference to how values are completed:

* `ConformsTo` — a value has its declared type, given the raw value it was made from; an item for
  each raw item, and nothing that is null where null is excluded;
* `FieldsConform` — an object has the collected keys of its object type, in their order;
* `FieldConforms` — what is under a key: the name of the type, null for an undefined field, null
  where the declared type allows it, or a value that conforms to the declared type.

The proof follows the evaluator: `ofLayers_conforms` for the lists of a type, `fieldPlace_conforms`
for fields, and `growWithin_conforms` for nested selections. `data_conforms` is the result.
-/

namespace GraphQL

/-- An enum declares the names of its values. -/
def EnumType.Declares (type : EnumType) (name : String) : Prop :=
  ∃ known ∈ Entries.values type.values.entries, known.name = name

/-- Only declared names are output. -/
theorem EnumType.declares_of_serialize? {type : EnumType} {value : Value} {name : String}
    (h : type.serialize? value = some name) : type.Declares name := by
  have hkey : ∀ text, (Entries.get? type.values.entries text).map (fun _ => text) = some name →
      type.Declares name := by
    intro text htext
    obtain ⟨found, hfound, rfl⟩ := Option.map_eq_some_iff.mp htext
    exact ⟨found, Entries.mem_values_of_get? hfound, Filed.name_of_get? hfound⟩
  unfold serialize? at h
  split at h
  -- A value that an entry stands for goes by the name of the entry.
  next found hfound =>
    exact ⟨found, List.mem_of_find?_eq_some hfound, Option.some.inj h⟩
  next =>
    split at h
    next text _ => exact hkey text h
    next text _ => exact hkey text h
    next => exact absurd h (by simp)

/-! ### Conformance -/

mutual

/-- A value conforms to the type of a field inside some of its lists, which are given from the
outermost one on. The raw value is the one that the value was made from. -/
inductive ConformsTo (ctx : ExecutionContext) :
    ResolveInfo → List ListWrapping → QueryPath → FieldValue → Value → Prop
  | null {info : ResolveInfo} {wrappers : List ListWrapping} {path : QueryPath} {raw : FieldValue}
      (h : Completion.excludesNull info.returnType.wrapping.innerIsRequired wrappers = false) :
      ConformsTo ctx info wrappers path raw .null
  | list {info : ResolveInfo} {wrapper : ListWrapping} {inner : List ListWrapping}
      {path : QueryPath} {raw : FieldValue} {items : List FieldValue} {values : List Value}
      (hitems : Completion.items? raw = some items)
      (h : ItemsConform ctx info inner path 0 items values) :
      ConformsTo ctx info (wrapper :: inner) path raw (.list values)
  | scalar {info : ResolveInfo} {path : QueryPath} {raw : FieldValue} {scalar : ScalarType}
      {constant value : Value}
      (htype : ctx.schema.types.type? info.returnType.name = some (.scalar scalar))
      (hconstant : raw.toValue? = some constant)
      (hserialize : scalar.serialize constant = .ok value)
      (hnull : value = .null → info.returnType.wrapping.innerIsRequired = false) :
      ConformsTo ctx info [] path raw value
  | enum {info : ResolveInfo} {path : QueryPath} {raw : FieldValue} {type : EnumType}
      {name : String}
      (htype : ctx.schema.types.type? info.returnType.name = some (.enum type))
      (hname : type.Declares name) : ConformsTo ctx info [] path raw (.enum name)
  | object {info : ResolveInfo} {path : QueryPath} {raw : FieldValue} {object : ObjectType}
      {entries : List (String × Value)}
      (htype : ctx.schema.types.type? info.returnType.name = some (.object object))
      (h : FieldsConform ctx object path raw
        (ctx.collectFields object (info.fieldNodes.map FieldNode.selections)) entries) :
      ConformsTo ctx info [] path raw (.object entries)
  | abstract {info : ResolveInfo} {path : QueryPath} {raw : FieldValue} {type : TypeDefinition}
      {name : String} {object : ObjectType} {entries : List (String × Value)}
      (htype : ctx.schema.types.type? info.returnType.name = some type)
      (habstract : type.isAbstract = true) (hobject : ctx.schema.types.object? name = some object)
      (hpossible : ctx.schema.types.isPossibleType info.returnType.name object.name = true)
      (h : FieldsConform ctx object path raw
        (ctx.collectFields object (info.fieldNodes.map FieldNode.selections)) entries) :
      ConformsTo ctx info [] path raw (.object entries)

/-- The items of a list from an index on: one conforming item for each raw item, in their order. -/
inductive ItemsConform (ctx : ExecutionContext) :
    ResolveInfo → List ListWrapping → QueryPath → Nat → List FieldValue → List Value → Prop
  | nil {info : ResolveInfo} {inner : List ListWrapping} {path : QueryPath} {index : Nat} :
      ItemsConform ctx info inner path index [] []
  | cons {info : ResolveInfo} {inner : List ListWrapping} {path : QueryPath} {index : Nat}
      {item : FieldValue} {items : List FieldValue} {value : Value} {values : List Value}
      (h : ConformsTo ctx info inner (path.index index) item value)
      (hrest : ItemsConform ctx info inner path (index + 1) items values) :
      ItemsConform ctx info inner path index (item :: items) (value :: values)

/-- The entries of an object: one for each of some collected keys, in their order. -/
inductive FieldsConform (ctx : ExecutionContext) :
    ObjectType → QueryPath → FieldValue → FieldGroups → List (String × Value) → Prop
  | nil {object : ObjectType} {path : QueryPath} {parent : FieldValue} :
      FieldsConform ctx object path parent [] []
  | cons {object : ObjectType} {path : QueryPath} {parent : FieldValue} {key : String}
      {nodes : List Field} {groups : FieldGroups} {value : Value} {entries : List (String × Value)}
      (h : FieldConforms ctx object path parent key nodes value)
      (hrest : FieldsConform ctx object path parent groups entries) :
      FieldsConform ctx object path parent ((key, nodes) :: groups) ((key, value) :: entries)

/-- The value under a key of an object of the given type, at a path and made from a raw value. -/
inductive FieldConforms (ctx : ExecutionContext) :
    ObjectType → QueryPath → FieldValue → String → List Field → Value → Prop
  | typename {object : ObjectType} {path : QueryPath} {parent : FieldValue} {key : String}
      {node : Field} {others : List Field} (hname : node.name = "__typename") :
      FieldConforms ctx object path parent key (node :: others) (.string object.name)
  | undefined {object : ObjectType} {path : QueryPath} {parent : FieldValue} {key : String}
      {node : Field} {others : List Field} (hname : node.name ≠ "__typename")
      (hfield : object.field? node.name = none) :
      FieldConforms ctx object path parent key (node :: others) .null
  | null {object : ObjectType} {path : QueryPath} {parent : FieldValue} {key : String}
      {node : Field} {others : List Field} {definition : FieldDefinition}
      (hname : node.name ≠ "__typename") (hfield : object.field? node.name = some definition)
      (hnull : definition.type.isNonNull = false) :
      FieldConforms ctx object path parent key (node :: others) .null
  | resolved {object : ObjectType} {path : QueryPath} {parent : FieldValue} {key : String}
      {node : Field} {others : List Field} {definition : FieldDefinition} {info : ResolveInfo}
      {arguments : Arguments} {raw : FieldValue} {value : Value}
      (hname : node.name ≠ "__typename") (hfield : object.field? node.name = some definition)
      (hinfo : info = ctx.resolveInfo object definition node.name (node :: others)
        (path.field key object.name))
      (harguments : Coercion.coerceArguments ctx.schema.types definition node ctx.vars =
        .ok arguments)
      (hraw : ctx.resolved object parent path.isEmpty node info arguments = .ok (.ok raw))
      (h : ConformsTo ctx info definition.type.wrapping.layers.lists.reverse info.path raw value) :
      FieldConforms ctx object path parent key (node :: others) value

end

section Consequences

variable {ctx : ExecutionContext}

/-- Where null is excluded no conforming value is null. -/
theorem ConformsTo.ne_null {info : ResolveInfo} {wrappers : List ListWrapping} {path : QueryPath}
    {raw : FieldValue} {value : Value} (h : ConformsTo ctx info wrappers path raw value)
    (hrequired : Completion.excludesNull info.returnType.wrapping.innerIsRequired wrappers = true) :
    value ≠ .null := by
  intro hvalue
  cases h with
  | null hnull => rw [hrequired] at hnull; exact absurd hnull (by simp)
  | scalar _ _ _ hnull => rw [Completion.excludesNull, hnull hvalue] at hrequired; simp at hrequired
  | _ => exact absurd hvalue (by simp)

/-- A conforming object has exactly the collected keys, in their order. -/
theorem FieldsConform.keys_eq {object : ObjectType} {path : QueryPath} {parent : FieldValue}
    {groups : FieldGroups} {entries : List (String × Value)}
    (h : FieldsConform ctx object path parent groups entries) :
    Entries.keys entries = Entries.keys groups := by
  induction groups generalizing entries with
  | nil => cases h; rfl
  | cons group rest ih =>
    cases h with
    | @cons _ _ _ key _ _ _ _ _ hrest => exact congrArg (key :: ·) (ih hrest)

/-- A conforming list has as many items as the raw one. -/
theorem ItemsConform.length_eq {info : ResolveInfo} {inner : List ListWrapping} {path : QueryPath}
    {index : Nat} {items : List FieldValue} {values : List Value}
    (h : ItemsConform ctx info inner path index items values) : values.length = items.length := by
  induction items generalizing index values with
  | nil => cases h; rfl
  | cons item rest ih =>
    cases h with
    | cons _ hrest => exact congrArg (· + 1) (ih hrest)

end Consequences

/-! ### Trees conform -/

namespace CompletionTree

section Required

variable {nonNull : Bool} {info : ResolveInfo} {path : QueryPath} {tree : CompletionTree}

/-- The null check leaves a sound tree only of a sound one. -/
theorem isSound_of_required (h : (required nonNull info path tree).IsSound) : tree.IsSound := by
  by_cases htree : tree = .leaf .null
  · rw [htree]
    exact .leaf .null
  · rwa [required_of_ne htree] at h

/-- What passes the null check has the value that it had before, and is not null where it must not
be. -/
theorem completed_of_required {value : Value}
    (h : (required nonNull info path tree).completed = .ok value) :
    tree.completed = .ok value ∧ (tree = .leaf .null → nonNull = false) := by
  by_cases htree : tree = .leaf .null
  · subst htree
    cases nonNull with
    | true => exact absurd h (by simp [required, failure, completed])
    | false => exact ⟨h, fun _ => rfl⟩
  · rw [required_of_ne htree] at h
    exact ⟨h, fun hnull => absurd hnull htree⟩

end Required

theorem not_completed_failure {info : ResolveInfo} {path : QueryPath} {message : String}
    {code : ErrorCode} {value : Value} :
    (failure info path message code).completed ≠ .ok value := by
  simp [failure, completed]

end CompletionTree

open CompletionTree

/-- The objects that are grown conform to their selections. -/
def GrowConforms (ctx : ExecutionContext) (grow : Grow) : Prop :=
  ∀ object selectionSets raw path value, (grow object selectionSets raw path).IsSound →
    (grow object selectionSets raw path).completed = .ok value →
      ∃ entries, value = .object entries ∧
        FieldsConform ctx object path raw (ctx.collectFields object selectionSets) entries

section Trees

variable {ctx : ExecutionContext} {grow : Grow} (hgrow : GrowConforms ctx grow)
include hgrow

/-- An object that its type accepts conforms to the selections of the field. -/
theorem ofObject_conforms {object : ObjectType} {info : ResolveInfo} {path : QueryPath}
    {raw : FieldValue} {value : Value} (hsound : (ofObject grow object info path raw).IsSound)
    (h : (ofObject grow object info path raw).completed = .ok value) :
    ∃ entries, value = .object entries ∧ FieldsConform ctx object path raw
      (ctx.collectFields object (info.fieldNodes.map FieldNode.selections)) entries := by
  unfold ofObject at hsound h
  -- A value is not accepted by a predicate that panics in a sound tree, and one that is refused is
  -- a failure.
  cases hpredicate : object.isTypeOf with
  | none =>
    simp only [hpredicate] at hsound h
    exact hgrow object _ raw path value hsound h
  | some isTypeOf =>
    simp only [hpredicate] at hsound h
    cases hcall : isTypeOf raw with
    | panicked log message =>
      rw [hcall] at hsound
      exact absurd hsound (not_isSound_broken _)
    | returned log accepted =>
      rw [hcall] at hsound h
      cases accepted with
      | true => exact hgrow object _ raw path value hsound h
      | false => exact absurd h not_completed_failure

omit hgrow in
/-- The type that is found for an interface or union is one that it stands for. -/
theorem concreteType_eq_ok {types : TypeSystem} {abstractType : String} {name : Option String}
    {object : ObjectType} (h : Completion.concreteType types abstractType name = .ok object) :
    (∃ name, types.object? name = some object) ∧
      types.isPossibleType abstractType object.name = true := by
  cases name with
  | none => exact absurd h (by simp [Completion.concreteType])
  | some name =>
    rw [Completion.concreteType] at h
    cases hobject : types.object? name with
    | none => rw [hobject] at h; exact absurd h (by simp)
    | some found =>
      rw [hobject] at h
      simp only at h
      -- An object type that is not one of the possible ones is refused.
      split at h
      next hpossible =>
        obtain rfl := Except.ok.inj h
        exact ⟨⟨name, hobject⟩, hpossible⟩
      next => exact absurd h (by simp)

/-- A value of an interface or union type conforms as one of the object types that it stands for. -/
theorem ofAbstract_conforms {info : ResolveInfo} {path : QueryPath} {raw : FieldValue}
    {value : Value} {type : TypeDefinition}
    (htype : ctx.schema.types.type? info.returnType.name = some type)
    (habstract : type.isAbstract = true)
    (hsound : (ofAbstract ctx grow info.returnType.name info path raw).IsSound)
    (h : (ofAbstract ctx grow info.returnType.name info path raw).completed = .ok value) :
    ConformsTo ctx info [] path raw value := by
  unfold ofAbstract at hsound h
  simp only at hsound h
  cases hcall : (ctx.schema.typeHooks info.returnType.name).resolveType.getD ctx.typeResolver raw
      info info.returnType.name with
  | panicked log message =>
    rw [hcall] at hsound
    -- Where there is a value, the resolver has not panicked and has named a possible object type.
    exact absurd hsound (not_isSound_broken _)
  | returned log name =>
    simp only [hcall] at hsound h
    cases hconcrete : Completion.concreteType ctx.schema.types info.returnType.name name with
    | error fault =>
      simp only [hconcrete] at h
      exact absurd h not_completed_failure
    | ok object =>
      simp only [hconcrete] at hsound h
      obtain ⟨⟨name, hobject⟩, hpossible⟩ := concreteType_eq_ok hconcrete
      obtain ⟨entries, rfl, hentries⟩ := ofObject_conforms hgrow hsound h
      exact .abstract htype habstract hobject hpossible hentries

/-- A value that is not null, against a type without wrappers. The cases are what the name of the
type stands for. Only scalars can put out a null here, for which the type must allow it, and an
object conforms by its fields. -/
theorem ofNamed_conforms {info : ResolveInfo} {path : QueryPath} {raw : FieldValue} {value : Value}
    (hsound : (ofNamed ctx grow info.returnType.name info path raw).IsSound)
    (h : (ofNamed ctx grow info.returnType.name info path raw).completed = .ok value)
    (hnull : ofNamed ctx grow info.returnType.name info path raw = .leaf .null →
      info.returnType.wrapping.innerIsRequired = false) :
    ConformsTo ctx info [] path raw value := by
  unfold ofNamed at hsound h hnull
  cases htype : ctx.schema.types.type? info.returnType.name with
  -- An unknown type and an input type have no values at all.
  | none =>
    simp only [htype] at h
    exact absurd h not_completed_failure
  | some type =>
    cases type with
    | scalar scalar =>
      simp only [htype] at h hnull
      unfold ofScalar at h hnull
      cases hconstant : raw.toValue? with
      | none => simp only [hconstant] at h; exact absurd h not_completed_failure
      | some constant =>
        cases hserialize : scalar.serialize constant with
        | error message =>
          simp only [hconstant, hserialize] at h
          exact absurd h not_completed_failure
        | ok result =>
          -- A serializer may output null, which the null check lets pass where it is allowed.
          simp only [hconstant, hserialize] at h hnull
          obtain rfl := Except.ok.inj h
          exact .scalar htype hconstant hserialize fun hresult => hnull (congrArg _ hresult)
    | enum type =>
      simp only [htype] at h
      unfold ofEnum at h
      cases hname : raw.toValue?.bind type.serialize? with
      | none => simp only [hname] at h; exact absurd h not_completed_failure
      | some name =>
        simp only [hname] at h
        obtain rfl := Except.ok.inj h
        obtain ⟨constant, _, hserialize⟩ := Option.bind_eq_some_iff.mp hname
        exact .enum htype (EnumType.declares_of_serialize? hserialize)
    | object object =>
      simp only [htype] at hsound h
      obtain ⟨entries, rfl, hentries⟩ := ofObject_conforms hgrow hsound h
      exact .object htype hentries
    | interface _ | union _ =>
      simp only [htype] at hsound h
      exact ofAbstract_conforms hgrow htype rfl hsound h
    | inputObject _ =>
      simp only [htype] at h
      exact absurd h not_completed_failure

omit hgrow in
/-- The items of a list conform if the values of their trees do. The induction is on the items, for
any first index, as the items behind the first one are counted on from it. -/
theorem items_conform {info : ResolveInfo} {inner : List ListWrapping} {path : QueryPath}
    {tree : Nat → FieldValue → CompletionTree}
    (htree : ∀ index item value, (tree index item).IsSound →
      (tree index item).completed = .ok value →
        ConformsTo ctx info inner (path.index index) item value)
    {items : List FieldValue} {index : Nat} {entries : List (PathSegment × Value)}
    (hsound : ∀ item ∈ items.zipIdx index, (tree item.2 item.1).IsSound)
    (h : List.Forall₂ Place.CompletesTo ((items.zipIdx index).map fun item =>
      { segment := .index item.2
        nonNull := Completion.excludesNull info.returnType.wrapping.innerIsRequired inner
        call := none
        tree := tree item.2 item.1 }) entries) :
    ItemsConform ctx info inner path index items (entries.map Prod.snd) := by
  induction items generalizing index entries with
  | nil =>
    cases h
    exact .nil
  | cons item rest ih =>
    rw [List.zipIdx_cons] at hsound h
    rw [List.map_cons] at h
    cases h with
    | cons hfirst hrest =>
      refine .cons ?_ (ih (fun other hmem => hsound other (List.mem_cons_of_mem _ hmem)) hrest)
      -- An item has the value of its tree, or is null in place of an error.
      rcases Place.completed_eq_ok hfirst.2 with hcompleted | ⟨hnull, hvalue, -⟩
      · exact htree index item _ (hsound (item, index) List.mem_cons_self) hcompleted
      · rw [hvalue]
        exact .null hnull

/-- **Values of any type conform.** The induction is on the list wrappers of the type. At each of
them there is a check for null first, after which the value is a null that is allowed, or a list
whose items conform to the type inside. -/
theorem ofLayers_conforms {info : ResolveInfo} {wrappers : List ListWrapping} {path : QueryPath}
    {raw : FieldValue} {value : Value}
    (hsound : (ofLayers ctx grow info.returnType.name info.returnType.wrapping.innerIsRequired info
      wrappers path raw).IsSound)
    (h : (ofLayers ctx grow info.returnType.name info.returnType.wrapping.innerIsRequired info
      wrappers path raw).completed = .ok value) :
    ConformsTo ctx info wrappers path raw value := by
  induction wrappers generalizing path raw value with
  | nil =>
    rw [ofLayers] at hsound h
    obtain ⟨hcompleted, hnull⟩ := completed_of_required h
    -- The null is kept where the type inside is nullable.
    have hsound := isSound_of_required hsound
    split at hcompleted
    next hraw =>
      rw [if_pos hraw] at hnull
      obtain rfl := Except.ok.inj hcompleted
      exact .null (hnull rfl)
    next hraw =>
      rw [if_neg hraw] at hsound hnull
      -- A list is null itself, or has one value for each item of the raw list.
      exact ofNamed_conforms hgrow hsound hcompleted hnull
  | cons wrapper inner ih =>
    rw [ofLayers] at hsound h
    split at hsound
    next hraw =>
      rw [if_pos hraw] at h
      obtain ⟨hcompleted, hnull⟩ := completed_of_required h
      obtain rfl := Except.ok.inj hcompleted
      exact .null (hnull rfl)
    next hraw =>
      rw [if_neg hraw] at h
      cases hitems : Completion.items? raw with
      | none =>
        simp only [hitems] at h
        exact absurd h not_completed_failure
      | some items =>
        simp only [hitems] at hsound h
        rw [List.mapIdx_eq_zipIdx_map] at hsound h
        rw [isSound_branch_iff, List.forall_mem_map] at hsound
        obtain ⟨entries, hentries, rfl⟩ := exists_entries_of_completed h
        exact .list hitems (items_conform (fun index item value hsound hcompleted =>
          ih hsound hcompleted) hsound (forall₂_of_completedPlaces hentries))

/-! ### Fields -/

/-- A field conforms to what its object type says about it. The cases are those in which a place has
a value: `__typename`, a null in place of an error that has been taken, or the completed value of a
resolver that was called with coerced arguments. -/
theorem fieldPlace_conforms {object : ObjectType} {parent : FieldValue} {path : QueryPath}
    {key : String} {nodes : List Field} {value : Value} (hnodes : nodes ≠ [])
    (hsound : (ctx.fieldPlace grow object parent path key nodes).tree.IsSound)
    (h : (ctx.fieldPlace grow object parent path key nodes).completed = .ok value) :
    FieldConforms ctx object path parent key nodes value := by
  cases nodes with
  | nil => exact absurd rfl hnodes
  | cons node others =>
    -- The place of a field without an error says how the value came about.
    rw [ExecutionContext.fieldPlace] at hsound h
    by_cases htypename : (node.name == "__typename") = true
    · simp only [if_pos htypename] at h
      obtain rfl := Except.ok.inj h
      exact .typename (beq_iff_eq.mp htypename)
    · have hname : node.name ≠ "__typename" := fun hname => htypename (beq_iff_eq.mpr hname)
      simp only [if_neg htypename] at hsound h
      cases hfield : object.field? node.name with
      | none =>
        simp only [hfield] at h
        obtain rfl := Except.ok.inj h
        exact .undefined hname hfield
      | some definition =>
        simp only [hfield] at hsound h
        rcases Place.completed_eq_ok h with hcompleted | ⟨hnull, rfl, -⟩
        · -- Without an error the arguments were coerced and the resolver returned a value.
          rw [ExecutionContext.definedPlace] at hsound hcompleted
          cases harguments : Coercion.coerceArguments ctx.schema.types definition node ctx.vars with
          | error failure =>
            rw [harguments] at hsound hcompleted
            cases failure with
            | endless => exact absurd hsound (not_isSound_broken _)
            | invalid error => exact absurd hcompleted (by simp [completed])
          | ok arguments =>
            simp only [harguments] at hsound hcompleted
            cases hraw : ctx.resolved object parent path.isEmpty node
                (ctx.resolveInfo object definition node.name (node :: others)
                  (path.field key object.name)) arguments with
            | error why => rw [hraw] at hsound; exact absurd hsound (not_isSound_broken _)
            | ok result =>
              rw [hraw] at hsound hcompleted
              cases result with
              | error error =>
                exact absurd hcompleted (by simp [ExecutionContext.resolvedTree, completed])
              | ok raw =>
                exact .resolved hname hfield rfl harguments hraw
                  (ofLayers_conforms hgrow hsound hcompleted)
        -- The field failed, and took its error: only a nullable field is null for that reason.
        · exact .null hname hfield (hnull ▸ (ctx.definedPlace_nonNull ..).symm)

/-- An object conforms to the fields that were collected for it. The induction is on the groups. -/
theorem fields_conform {object : ObjectType} {parent : FieldValue} {path : QueryPath}
    {groups : FieldGroups} {entries : List (PathSegment × Value)}
    (hnonempty : ∀ group ∈ groups, group.2 ≠ [])
    (hsound : ∀ group ∈ groups,
      (ctx.fieldPlace grow object parent path group.1 group.2).tree.IsSound)
    (h : List.Forall₂ Place.CompletesTo
      (groups.map fun group => ctx.fieldPlace grow object parent path group.1 group.2) entries) :
    FieldsConform ctx object path parent groups
      (entries.map fun entry => (entry.1.text, entry.2)) := by
  induction groups generalizing entries with
  | nil =>
    cases h
    exact .nil
  | cons group rest ih =>
    cases h with
    | @cons _ entry _ _ hfirst hrest =>
      have hsegment : entry.1.text = group.1 := by
        rw [hfirst.1, ExecutionContext.fieldPlace_segment]
        rfl
      -- The first entry is filed under the first key.
      rw [List.map_cons, hsegment]
      refine .cons ?_ (ih (fun other hmem => hnonempty other (List.mem_cons_of_mem group hmem))
        (fun other hmem => hsound other (List.mem_cons_of_mem group hmem)) hrest)
      exact fieldPlace_conforms hgrow (hnonempty group List.mem_cons_self)
        (hsound group List.mem_cons_self) hfirst.2

/-- The tree of an object conforms to the selections that it was grown for. -/
theorem groupsTree_conforms {object : ObjectType} {selectionSets : List (List Selection)}
    {parent : FieldValue} {path : QueryPath} {value : Value}
    (hsound : (ctx.groupsTree grow object parent path
      (ctx.collectFields object selectionSets)).IsSound)
    (h : (ctx.groupsTree grow object parent path
      (ctx.collectFields object selectionSets)).completed = .ok value) :
    ∃ entries, value = .object entries ∧
      FieldsConform ctx object path parent (ctx.collectFields object selectionSets) entries := by
  rw [ExecutionContext.groupsTree] at hsound h
  rw [isSound_branch_iff, List.forall_mem_map] at hsound
  obtain ⟨entries, hentries, rfl⟩ := exists_entries_of_completed h
  exact ⟨_, rfl, fields_conform hgrow (ctx.collectFields_grouped object selectionSets).nonempty
    hsound (forall₂_of_completedPlaces hentries)⟩

end Trees

/-- **Objects conform at every depth.** -/
theorem growWithin_conforms (ctx : ExecutionContext) (depth : Nat) :
    GrowConforms ctx (ctx.growWithin depth) := by
  induction depth with
  | zero => exact fun _ _ _ _ _ hsound => absurd hsound (not_isSound_broken _)
  | succ depth ih => exact fun _ _ _ _ _ hsound h => groupsTree_conforms ih hsound h

/-- **The data of a response conform to the schema and the selection**: they are null, or an object
of the root type whose fields and items conform at every depth. -/
theorem data_conforms {schema : Schema} {document : Document} {params : ExecutionParams}
    {ctx : ExecutionContext} {response : Response}
    (hbuild : ExecutionContext.build schema document params = .ok (.ok ctx))
    (hresponse : (execute schema document params).outcome = .ok response) :
    response.data = .null ∨ ∃ root entries, ctx.rootType? = some root ∧
      response.data = .object entries ∧
      FieldsConform ctx root .empty ctx.rootValue
        (ctx.collectFields root [ctx.operation.selections]) entries := by
  rw [execute_of_build hbuild] at hresponse
  have hanswer := ExecutionContext.answer_of_outcome hresponse
  have hsound := hanswer.sound
  rw [hanswer.data]
  -- An error of the whole operation leaves the data null.
  cases hcompleted : ctx.reachedTree.completed with
  | error error => exact .inl rfl
  | ok value =>
    rw [ExecutionContext.reachedTree_eq_tree hcompleted] at hsound hcompleted
    -- Otherwise all root fields are there, those that were run in turn included.
    rw [ExecutionContext.tree] at hsound hcompleted
    cases hroot : ctx.rootType? with
    | none =>
      rw [hroot] at hcompleted
      exact .inl (Except.ok.inj hcompleted).symm
    | some root =>
      rw [hroot] at hsound hcompleted
      obtain ⟨entries, rfl, hentries⟩ :=
        groupsTree_conforms (growWithin_conforms ctx ctx.depthLimit) hsound hcompleted
      exact .inr ⟨root, entries, rfl, rfl, hentries⟩

/-- The data of the sample are an object of the root type. -/
theorem data_conforms_sample :
    ∃ response, (execute Sample.schema Sample.document Sample.params).outcome = .ok response ∧
      response.data = .object [("user", .null), ("counts", .null)] ∧
      (response.data = .null ∨ ∃ root entries, Sample.ctx.rootType? = some root ∧
        response.data = .object entries ∧
        FieldsConform Sample.ctx root .empty Sample.ctx.rootValue
          (Sample.ctx.collectFields root [Sample.ctx.operation.selections]) entries) := by
  obtain ⟨response, hresponse, hdata⟩ := Sample.exists_response
  exact ⟨response, hresponse, hdata, data_conforms Sample.build_eq hresponse⟩

end GraphQL
