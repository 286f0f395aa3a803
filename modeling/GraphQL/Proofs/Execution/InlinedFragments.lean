import GraphQL.Proofs.Execution.Answer
import GraphQL.Proofs.Execution.InlinedCollection
import GraphQL.Proofs.Execution.RelatedCompletions
import GraphQL.Proofs.Execution.UpToLocations
import GraphQL.Proofs.Resolver.IgnoringSelections

/-!
# Fragments can be inlined

An operation can be executed with all its fragments written out, as long as no fragment spreads
itself and no callback looks at the selections of the document. The collections of an object then
differ in repeated nodes alone, so that every field has the same first node, which names it and
gives its arguments, and the selections of its object differ in repetitions alone again. What is
left of the difference are the places in the document that errors point to.

* `FieldsRelated.inlined` — the value of a field, given that its object is executed alike;
* `executeField_alike`, `executeGroups_alike` — one field, and the fields of one object;
* `executeSelections_alike` — all selections, by induction on how deep they nest;
* `build_inlined` — the same operation is selected, and given the same variables;
* `execute_inlined` — hence both documents are executed alike.
-/

namespace GraphQL

/-! ### Completing values -/

/-- A field is labelled alike. -/
theorem ResolveInfo.Alike.fieldLabel {info info' : ResolveInfo} (h : info.Alike info') :
    info.fieldLabel = info'.fieldLabel := by
  rw [ResolveInfo.fieldLabel, ResolveInfo.fieldLabel, h.parentType, h.fieldName]

/-- Two ways to execute selections, of some nodes and of others, that are alike for all objects. -/
def SelectsAlike (select select' : Select) (nodes nodes' : List Field) : Prop :=
  ∀ object value path, RunsAlike (select object (nodes.map FieldNode.selections) value path)
    (select' object (nodes'.map FieldNode.selections) value path)

/-- A field and the same field with all fragments written out: errors are located alike, apart from the
nodes that they point to. -/
theorem FieldsRelated.inlined {ctx : ExecutionContext} {select select' : Select} {info info' : ResolveInfo}
    (hinfo : info.Alike info') (hselect : SelectsAlike select select' info.fieldNodes info'.fieldNodes)
    (htype : ∀ typeName, ((ctx.schema.typeHooks typeName).resolveType.getD
      ctx.typeResolver).IgnoresSelections) :
    FieldsRelated GraphQLError.Alike ctx ctx.inlined select select' info info' where
  label := hinfo.fieldLabel
  returnType := hinfo.returnType
  path := hinfo.path
  located _ _ _ := rfl
  types := by rw [ctx.inlined_schema]
  resolvesTypes value typeName := by
    rw [ctx.inlined_schema, ctx.inlined_typeResolver, htype typeName value info info' typeName hinfo]
  selects := hselect

/-! ### Executing fields -/

/-- Arguments are coerced without regard to the selections of their field. -/
theorem Coercion.coerceArguments_inlined (types : TypeSystem) (definition : FieldDefinition)
    (fragments : Entries FragmentDefinition) (node : Field) (vars : Variables) :
    coerceArguments types definition (node.inlined fragments) vars =
      coerceArguments types definition node vars := by
  -- The arguments that a field gives are looked up in the node, which keeps them when it is
  -- inlined.
  have hdeclared : ∀ definitions,
      coerceDeclared types (node.inlined fragments) vars definitions =
        coerceDeclared types node vars definitions := by
    intro definitions
    rw [FieldNode.inlined_eq]
    induction definitions with
    | nil => rfl
    | cons definition rest ih =>
      rw [coerceDeclared, coerceDeclared, ih]
      rfl
  rw [coerceArguments, coerceArguments, hdeclared, FieldNode.inlined_eq]

namespace ExecutionContext

/-- No callback of the execution makes anything of selections. -/
structure IgnoresSelections (ctx : ExecutionContext) : Prop where
  schema : ctx.schema.IgnoresSelections
  fieldResolver : ctx.fieldResolver.IgnoresSelections
  typeResolver : ctx.typeResolver.IgnoresSelections
  middleware : ctx.middleware.IgnoresSelections

section Executing

variable {ctx : ExecutionContext} {select select' : Select} {info info' : ResolveInfo}

theorem IgnoresSelections.resolveType (h : ctx.IgnoresSelections) (typeName : String) :
    ((ctx.schema.typeHooks typeName).resolveType.getD ctx.typeResolver).IgnoresSelections := by
  cases hresolver : (ctx.schema.typeHooks typeName).resolveType with
  | none => exact h.typeResolver
  | some resolver => exact h.schema.resolveType typeName resolver hresolver

/-- The resolver of a field, behind all interceptors. -/
theorem IgnoresSelections.resolver (h : ctx.IgnoresSelections) (typeName fieldName : String)
    (atRoot : Bool) :
    (ctx.middleware.wrap typeName fieldName
      (ctx.baseResolver typeName fieldName atRoot)).IgnoresSelections := by
  refine Middleware.wrap_ignoresSelections h.middleware typeName fieldName ?_
  rw [baseResolver]
  cases hresolver : (ctx.schema.fieldHooks typeName fieldName).resolver with
  | some resolver => exact h.schema.resolver typeName fieldName resolver hresolver
  | none =>
    simp only
    split
    · exact Resolver.payload_ignoresSelections
    · exact h.fieldResolver

/-- A resolver that ignores selections is called with the same parent and arguments, and does the
same. -/
theorem invoke_eq (ctx : ExecutionContext) {resolver : Resolver}
    (hresolver : resolver.IgnoresSelections) (hinfo : info.Alike info') (parent : FieldValue)
    (arguments : Arguments) (context : Option Value) :
    ctx.invoke resolver ⟨parent, arguments, info, context⟩ =
      ctx.inlined.invoke resolver ⟨parent, arguments, info', context⟩ := by
  rw [invoke, invoke, ctx.inlined_schema, hresolver parent arguments info info' context hinfo]
  simp only [hinfo.path]

theorem executeDefined_alike (h : ctx.IgnoresSelections) (hinfo : info.Alike info')
    (hselect : SelectsAlike select select' info.fieldNodes info'.fieldNodes) (object : ObjectType)
    (parent : FieldValue) (atRoot : Bool) (definition : FieldDefinition) (node : Field) :
    RunsAlike (ctx.executeDefined select object parent atRoot definition node info)
      (ctx.inlined.executeDefined select' object parent atRoot definition
        (node.inlined ctx.fragments) info') := by
  rw [executeDefined, executeDefined, Coercion.coerceArguments_inlined, ctx.inlined_schema,
    ctx.inlined_vars, ← hinfo.path]
  cases Coercion.coerceArguments ctx.schema.types definition node ctx.vars with
  | error failure =>
    cases failure with
    | endless => exact .abort .nil .endless
    | invalid error =>
      exact Completed.absorb_bind_related _ (Completed.fail_related rfl)
  | ok arguments =>
    simp only [FieldNode.inlined_name]
    show RunsAlike _ ((ctx.inlined.invoke (ctx.middleware.wrap object.name node.name
      (ctx.baseResolver object.name node.name atRoot))
        ⟨parent, arguments, info', ctx.context⟩).bind _)
    rw [← ctx.invoke_eq (h.resolver object.name node.name atRoot) hinfo]
    refine .bind_same .same _ fun result => ?_
    -- The result is completed, and its error absorbed where the field may be null.
    refine Completed.absorb_bind_related _ ?_
    cases result with
    | error error => exact Completed.fail_related rfl
    | ok value => exact Completion.completeValue_related (.inlined hinfo hselect h.resolveType) value

/-- The selections under one response key. Both sides have the same first node, inlined on the
second one. That node alone decides which field is meant and what its arguments are, so whatever
nodes are repeated only matters for the selections below. -/
theorem executeField_alike (h : ctx.IgnoresSelections) {nodes nodes' : List Field}
    (hnodes : Repeats (FieldNode.inlined ctx.fragments) nodes nodes')
    (hselect : nodes' ≠ [] → SelectsAlike select select' nodes nodes') (object : ObjectType)
    (parent : FieldValue) (path : QueryPath) (key : String) :
    RunsAlike (ctx.executeField select object parent path key nodes)
      (ctx.inlined.executeField select' object parent path key nodes') := by
  have hfirst := hnodes.head?_eq
  cases nodes with
  | nil =>
    -- Neither side has a node, so that both break down.
    obtain rfl : nodes' = [] := List.head?_eq_none_iff.mp hfirst
    exact .abort .nil _
  | cons node others =>
    obtain ⟨others', rfl⟩ : ∃ others', nodes' = node.inlined ctx.fragments :: others' :=
      List.head?_eq_some_iff.mp hfirst
    rw [executeField, executeField, FieldNode.inlined_name]
    split
    · exact .ok _
    · cases object.field? node.name with
      | none =>
        -- The error names the field, and points to all nodes.
        refine Completed.absorb_bind_related _ (Completed.fail_related ?_)
        rw [undefinedField, undefinedField, FieldNode.inlined_name]
        rfl
      | some definition =>
        refine executeDefined_alike h ?_ (hselect (List.cons_ne_nil _ _)) object parent _ definition
          node
        exact {
          fieldName := rfl
          returnType := rfl
          parentType := rfl
          path := rfl
          types := rfl
          rootValue := rfl
          operation := rfl
          vars := rfl }

/-! ### Executing objects -/

/-- The fields of an object. -/
theorem executeGroups_alike (h : ctx.IgnoresSelections) (serial : Bool) (object : ObjectType)
    (parent : FieldValue) (path : QueryPath) {groups groups' : FieldGroups}
    (hgroups : FieldGroups.RepeatIn ctx.fragments groups groups')
    (hselect : ∀ nodes, ∀ group' ∈ groups', group'.2 ≠ [] →
      Repeats (FieldNode.inlined ctx.fragments) nodes group'.2 →
      SelectsAlike select select' nodes group'.2) :
    RunsAlike (ctx.executeGroups select serial object parent path groups)
      (ctx.inlined.executeGroups select' serial object parent path groups') := by
  -- The two groups of a key are executed alike. The induction is on the groups, which are paired.
  have hfields : GroupsRelated GraphQLError.Alike (ctx.executeField select object parent path)
      (ctx.inlined.executeField select' object parent path) groups groups' := by
    induction hgroups with
    | nil => exact .nil
    | @cons group group' _ _ hfirst _ ih =>
      obtain ⟨key, nodes⟩ := group
      obtain ⟨_, nodes'⟩ := group'
      obtain ⟨rfl, hnodes⟩ := hfirst
      refine .cons ⟨rfl, executeField_alike h hnodes (fun hne => ?_) object parent path key⟩
        (ih fun nodes group' hmem => hselect nodes group' (List.mem_cons_of_mem _ hmem))
      exact hselect nodes (key, nodes') List.mem_cons_self hne hnodes
  rw [executeGroups, executeGroups]
  refine RunsRelated.map Value.object ?_
  split
  · exact executeInTurn_related hfields
  · exact executeTogether_related hfields

/-- **Selections are executed alike.** The induction is on how deep the inlined selections nest:
both sides may be executed to any depth from that on. -/
theorem executeSelections_alike (h : ctx.IgnoresSelections)
    (hacyclic : Fragments.Acyclic ctx.fragments) {height depth depth' : Nat}
    (hdepth : height ≤ depth) (hdepth' : height ≤ depth')
    {selectionSets selectionSets' : List (List Selection)}
    (hsets : Repeats (Selection.inlined ctx.fragments) selectionSets selectionSets')
    (hheight : ∀ selections ∈ selectionSets', Selection.heights selections ≤ height)
    (serial : Bool) (object : ObjectType) (value : FieldValue) (path : QueryPath) :
    RunsAlike
      (ctx.executeGroups (ctx.selectWithin depth) serial object value path
        (ctx.collectFields object selectionSets))
      (ctx.inlined.executeGroups (ctx.inlined.selectWithin depth') serial object value path
        (ctx.inlined.collectFields object selectionSets')) := by
  induction height using Nat.strong_induction_on generalizing depth depth' selectionSets
    selectionSets' serial object value path with
  | _ height ih =>
    refine executeGroups_alike h serial object value path (collectFields_inlined hacyclic hsets) ?_
    intro nodes group' hgroup' hne hnodes object value path
    -- What lies below a node that has been collected nests less deep.
    have hbelow : ∀ node ∈ group'.2, Selection.heights node.selections + 1 ≤ height := by
      intro node hnode
      rw [← FieldNode.height_eq]
      exact height_le_of_mem_collectFields ctx.inlined_fragments hheight group' hgroup' node hnode
    obtain ⟨node, hnode⟩ := List.exists_mem_of_ne_nil _ hne
    have hpositive : height ≠ 0 := by
      have := hbelow node hnode
      omega
    obtain ⟨depth, rfl⟩ : ∃ rest, depth = rest + 1 := Nat.exists_eq_succ_of_ne_zero (by omega)
    obtain ⟨depth', rfl⟩ : ∃ rest, depth' = rest + 1 := Nat.exists_eq_succ_of_ne_zero (by omega)
    refine ih (height - 1) (by omega) (by omega) (by omega) ?_ ?_ false object value path
    · exact hnodes.map (FieldNode.inlined_selections ctx.fragments)
    · intro selections hselections
      obtain ⟨node, hnode, rfl⟩ := List.mem_map.mp hselections
      have := hbelow node hnode
      omega

/-! ### Executing operations -/

/-- The operation of a context is executed alike with all fragments written out. -/
theorem executeOperation_alike (h : ctx.IgnoresSelections)
    (hacyclic : Fragments.Acyclic ctx.fragments) :
    Coroutine.Lockstep (Event.Related GraphQLError.Alike) Eq ctx.executeOperation
      ctx.inlined.executeOperation := by
  -- Written out, the selections are no higher than either limit, so that neither execution is cut off.
  have hheight : Selection.heights (Selection.inlined ctx.fragments ctx.operation.selections) ≤
      ctx.depthLimit :=
    (Selection.heights_inlined_le hacyclic ctx.operation.selections).trans (Nat.le_add_right _ _)
  have hheight' : Selection.heights (Selection.inlined ctx.fragments ctx.operation.selections) ≤
      ctx.inlined.depthLimit := by
    refine (Selection.heights_le_fieldCounts _).trans ?_
    rw [depthLimit, Selection.fieldCounts_append, Nat.add_assoc]
    exact Nat.le_add_right _ _
  refine executeOperation_related ctx.inlined_rootType?.symm fun root _ => ?_
  exact executeSelections_alike h hacyclic hheight hheight'
    (.fresh ctx.operation.selections .nil) (List.forall_mem_singleton.mpr (Nat.le_refl _))
    ctx.isSerial root ctx.rootValue .empty

/-- The response to the operation, or to an event of a subscription. -/
theorem respond_alike (h : ctx.IgnoresSelections) (hacyclic : Fragments.Acyclic ctx.fragments) :
    Coroutine.Lockstep (Event.Related GraphQLError.Alike) Response.Alike ctx.respond ctx.inlined.respond :=
  respondWith_alike _ (executeOperation_alike h hacyclic)

end Executing

/-! ### Requests -/

/-- The same operation is selected. -/
theorem selectOperation_inlined (operations : Operations) (fragments : Entries FragmentDefinition)
    (name : Option String) : selectOperation (operations.inlined fragments) name =
      (selectOperation operations name).map (OperationDefinition.inlined fragments) := by
  cases operations with
  | anonymous operation => cases name <;> rfl
  | named operations =>
    cases name with
    | some name =>
      rw [Operations.inlined, selectOperation, selectOperation, Entries.get?_map]
      cases Entries.get? operations name <;> rfl
    | none =>
      rcases operations with _ | ⟨first, _ | ⟨second, rest⟩⟩ <;> rfl

theorem select_inlined (schema : Schema) (document : Document) (name : Option String) :
    select schema document.inlined name =
      (select schema document name).map (OperationDefinition.inlined document.fragments) := by
  rw [select, select, Document.inlined, selectOperation_inlined]
  cases selectOperation document.operations name with
  | error error => rfl
  | ok operation =>
    have htype : (operation.inlined document.fragments).type = operation.type := rfl
    simp only [Except.map, bind, Except.bind, htype]
    split <;> rfl

/-- The inlined document is executed as the inlined operation, for the same variables. -/
theorem build_inlined (schema : Schema) (document : Document) (params : ExecutionParams) :
    build schema document.inlined params =
      (build schema document params).map (Except.map inlined) := by
  rw [build, build, select_inlined]
  cases select schema document params.operationName with
  | error error => rfl
  | ok operation =>
    have hdefinitions : (operation.inlined document.fragments).variableDefinitions =
        operation.variableDefinitions := rfl
    simp only [Except.map, hdefinitions]
    -- The variables are coerced to the same values, or both requests are refused.
    cases Coercion.coerceVariables schema.types schema.config.maxVariableErrors
        operation.variableDefinitions params.vars with
    | error why => rfl
    | ok coerced => cases coerced <;> rfl

end ExecutionContext

/-- **Fragments can be inlined.** Where no fragment spreads itself and no callback makes anything of
selections, the document with all its fragments written out is executed like the document itself.
Both executions take the same visits and make the same calls of resolvers in the same order; they
end with equal data and with the same errors up to locations, or break down in the same way. -/
theorem execute_inlined {schema : Schema} {document : Document} {params : ExecutionParams}
    (hschema : schema.IgnoresSelections) (hparams : params.IgnoresSelections)
    (hacyclic : Fragments.Acyclic document.fragments) :
    Coroutine.SameOutcome Response.Alike (execute schema document params).outcome
        (execute schema document.inlined params).outcome ∧
      Event.calls (execute schema document params).log =
        Event.calls (execute schema document.inlined params).log ∧
      (execute schema document params).polls =
        (execute schema document.inlined params).polls := by
  suffices h : Coroutine.Lockstep (Event.Related GraphQLError.Alike) Response.Alike
      (execute schema document params)
      (execute schema document.inlined params) from
    ⟨h.outcome, Event.calls_eq h.log, h.polls_eq⟩
  rw [execute, execute, ExecutionContext.build_inlined]
  cases hbuild : ExecutionContext.build schema document params with
  | error why => exact .abort .nil why
  | ok built =>
    cases built with
    | error errors =>
      -- The request is refused before anything is executed.
      exact .pure ⟨rfl, List.forall₂_same.mpr fun _ _ => rfl⟩
    | ok ctx =>
      obtain ⟨operation, vars, -, -, rfl⟩ := ExecutionContext.build_eq_ok_iff.mp hbuild
      refine ExecutionContext.respond_alike ?_ hacyclic
      exact {
        schema := hschema
        fieldResolver := hparams.fieldResolver
        typeResolver := hparams.typeResolver
        middleware := hparams.middleware }

/-! ### A fragment that is spread three times -/

namespace FragmentSample

/-- The name of a user, and everything that can be queried, with the fragment for the name in it. -/
def fragments : Entries FragmentDefinition :=
  [("named",
      ⟨"User", [], [Sample.selection "__typename" [], Sample.selection "name" []], ⟨1, 1⟩⟩),
    ("everything",
      ⟨"Query", [], [Sample.selection "user" [.spread "named" []], Sample.selection "counts" []],
        ⟨1, 1⟩⟩)]

/-- The query for everything, with a user whose name is queried twice more. -/
def document : Document where
  operations := .anonymous { Sample.operation with
    selections :=
      [Sample.selection "user" [.spread "named" [], .spread "named" [], Sample.selection "id" []],
        .spread "everything" []] }
  fragments := fragments

/-- Only the fragment for everything spreads another one. -/
theorem acyclic : Fragments.Acyclic document.fragments := by
  -- The fragment that spreads another one is given the higher rank.
  refine Fragments.acyclic_of_decreasing (fun name => if name = "everything" then 1 else 0) ?_
  rintro name other ⟨fragment, hget, hspread, -⟩
  simp only [document, fragments, Entries.get?] at hget
  split at hget
  · obtain rfl := Option.some.inj hget
    exact absurd hspread List.not_mem_nil
  · split at hget
    next hname =>
      obtain rfl := Option.some.inj hget
      obtain rfl : other = "named" := List.mem_singleton.mp hspread
      rw [← hname]
      decide
    next => cases hget

end FragmentSample

/-- The error of the missing name points to one node, and to three when the fragments are written
out. -/
theorem execute_inlined_sample :
    (Sample.schema.IgnoresSelections ∧ Sample.params.IgnoresSelections ∧
      Fragments.Acyclic FragmentSample.document.fragments) ∧
    (Coroutine.SameOutcome Response.Alike
        (execute Sample.schema FragmentSample.document Sample.params).outcome
        (execute Sample.schema FragmentSample.document.inlined Sample.params).outcome ∧
      Event.calls (execute Sample.schema FragmentSample.document Sample.params).log =
        Event.calls (execute Sample.schema FragmentSample.document.inlined Sample.params).log ∧
      (execute Sample.schema FragmentSample.document Sample.params).polls =
        (execute Sample.schema FragmentSample.document.inlined Sample.params).polls) ∧
    (∃ response, (execute Sample.schema FragmentSample.document Sample.params).outcome =
        .ok response ∧
      response.errors.map (fun error => error.locations.length) = [1, 1, 1]) ∧
    ∃ response, (execute Sample.schema FragmentSample.document.inlined Sample.params).outcome =
        .ok response ∧
      response.errors.map (fun error => error.locations.length) = [3, 1, 1] := by
  have hhooks : Sample.schema.hooks = [("Int", .none), ("Float", .none), ("String", .none),
      ("Boolean", .none), ("ID", .none), ("Query", .none), ("User", .none)] := rfl
  have hschema : Sample.schema.IgnoresSelections :=
    Schema.ignoresSelections_of_none (by simp [hhooks])
  have hparams : Sample.params.IgnoresSelections :=
    ⟨Resolver.standard_ignoresSelections, TypeResolver.standard_ignoresSelections,
      Middleware.empty_ignoresSelections⟩
  exact ⟨⟨hschema, hparams, FragmentSample.acyclic⟩,
    execute_inlined hschema hparams FragmentSample.acyclic, ⟨_, rfl, rfl⟩, ⟨_, rfl, rfl⟩⟩

end GraphQL
