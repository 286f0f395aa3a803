import GraphQL.Proofs.Coercion.EndingCoercions
import GraphQL.Proofs.Execution.Breakdowns
import GraphQL.Proofs.Execution.CompleteCollection
import GraphQL.Proofs.Execution.CompletionSize
import GraphQL.Proofs.Execution.ErrorConservation
import GraphQL.Proofs.Execution.ResponsePaths
import GraphQL.Proofs.Execution.SameRuns

/-!
# Executions that end

Resolvers may return one object after the other, for every field, for ever. An execution asks for no
more of them than its operation does: the selections that are left nest less deep with every object, and
the lists around a value become fewer with every item. So an execution ends if the resolvers that it
calls settle, no default recurs and no fragment that is reached spreads itself, and how many levels of
objects are executed is never what decides.

* `Resolver.Settles`, `ResolversSettle` — what is asked of resolvers and interceptors;
* `invoke_avoids_endless`, `callbacksAvoid_endless` — then no field goes on for ever by itself;
* `selectWithin_avoids_endless` — the run lemma: nor do selections that nest less deep than there are
  levels;
* `selectWithin_eq_of_nestWithin` — and more levels make no difference;
* `execution_ends` — every execution of a request ends.
-/

namespace GraphQL

open Coroutine

/-- Whatever the resolver is called with, it panics or has a result that is there at some time. -/
def Resolver.Settles (resolver : Resolver) : Prop :=
  ∀ resolverContext log resolution, resolver resolverContext = .returned log resolution →
    resolution.toCoroutine.Settles

theorem Resolver.payload_settles : payload.Settles := by
  intro resolverContext log resolution h
  cases h
  exact settles_iff_avoids.mpr (.finish _ _)

/-- The resolvers of a schema are among the callbacks of its types. -/
theorem Schema.mem_of_resolver {schema : Schema} {typeName fieldName : String} {resolver : Resolver}
    (h : (schema.fieldHooks typeName fieldName).resolver = some resolver) :
    ∃ type ∈ schema.hooks, ∃ field ∈ type.2.fields, field.2.resolver = some resolver := by
  rw [Schema.fieldHooks, TypeHooks.field] at h
  -- Without an entry for the field, or for its type, there is no resolver to be found.
  cases hfield : Entries.get? (schema.typeHooks typeName).fields fieldName with
  | none => rw [hfield] at h; cases h
  | some hooks =>
    rw [hfield] at h
    rw [Schema.typeHooks] at hfield
    cases htype : Entries.get? schema.hooks typeName with
    | none => rw [htype] at hfield; cases hfield
    | some type =>
      rw [htype] at hfield
      exact ⟨_, Entries.get?_mem htype, _, Entries.get?_mem hfield, h⟩

/-- All resolvers that a request may call settle. -/
structure ResolversSettle (schema : Schema) (params : ExecutionParams) : Prop where
  /-- The resolvers of the schema. -/
  own : ∀ typeName fieldName resolver,
    (schema.fieldHooks typeName fieldName).resolver = some resolver → resolver.Settles
  /-- The resolver of the request. -/
  default : params.fieldResolver.Settles
  /-- What the interceptors make of a resolver that settles. -/
  intercepted : ∀ typeName fieldName resolver, resolver.Settles →
    (params.middleware.wrap typeName fieldName resolver).Settles

namespace ExecutionContext

/-- An execution of a request: that of its operation, as requested or for the payload of an event. -/
def Executes (schema : Schema) (document : Document) (params : ExecutionParams)
    (ctx : ExecutionContext) : Prop :=
  ∃ requested, build schema document params = .ok (.ok requested) ∧
    (ctx = requested ∨ ∃ payload, ctx = requested.forEvent payload)

/-- All resolvers of an execution settle. -/
def Settles (ctx : ExecutionContext) : Prop :=
  ∀ typeName fieldName atRoot,
    (ctx.middleware.wrap typeName fieldName (ctx.baseResolver typeName fieldName atRoot)).Settles

/-- How deep the fields of the operation nest when all fragments are written out. -/
def nesting (ctx : ExecutionContext) : Nat :=
  Selection.heights (Selection.inlined ctx.fragments ctx.operation.selections)

/-- Executes the operation with the given number of levels of objects below the root. -/
def executeWithin (ctx : ExecutionContext) (levels : Nat) : Run Value :=
  match ctx.rootType? with
  | none => .abort [] .unreachable
  | some root =>
      (ctx.executeGroups (ctx.selectWithin levels) ctx.isSerial root ctx.rootValue .empty
        (ctx.collectFields root [ctx.operation.selections])).bind fun result =>
          match result with
          | .ok data => .finish [] data
          | .error error => .finish [.recorded error] .null

variable {ctx : ExecutionContext} {bound : Nat}

theorem executeWithin_depthLimit (ctx : ExecutionContext) :
    ctx.executeWithin ctx.depthLimit = ctx.executeOperation := rfl

/-! ### Fields -/

/-- **A resolver that settles is waited for no longer than it takes.** -/
theorem invoke_avoids_endless {resolver : Resolver} (hsettles : resolver.Settles)
    (resolverContext : ResolverContext) :
    (ctx.invoke resolver resolverContext).Avoids (· = .endless) := by
  have hrun : Avoids (· = .endless) (((resolver resolverContext).toCoroutine Event.said).bind
      fun resolution => resolution.toCoroutine.mapLog .said) := by
    refine Avoids.bind (settles_iff_avoids.mp (Call.toCoroutine_settles _ _)) fun resolution hcall => ?_
    -- The resolution is the one that the resolver has returned, and settles as such.
    refine avoids_mapLog_iff.mpr (settles_iff_avoids.mp ?_)
    cases hreturned : resolver resolverContext with
    | returned log returned =>
      rw [hreturned] at hcall
      obtain rfl : returned = resolution := Except.ok.inj hcall
      exact hsettles resolverContext log returned hreturned
    | panicked log message =>
      rw [hreturned] at hcall
      cases hcall
  rw [invoke]
  refine avoids_prepend_iff.mpr (Avoids.bind ?_ fun _ _ => .finish _ _)
  split
  · exact hrun.catchPanic _
  · exact hrun

/-- Without defaults that recur nothing but the selections of an object could go on for ever. -/
theorem callbacksAvoid_endless (hdefaults : ∀ field, ¬ Coercion.Recurs ctx.schema.types field)
    (hsettles : ctx.Settles) : ctx.CallbacksAvoid (· = .endless) where
  predicates _ _ _ _ _ _ := settles_iff_avoids.mp (Call.toCoroutine_settles _ _)
  typeResolvers _ _ _ _ := settles_iff_avoids.mp (Call.toCoroutine_settles _ _)
  resolvers typeName fieldName atRoot resolverContext :=
    invoke_avoids_endless (hsettles typeName fieldName atRoot) resolverContext
  arguments _ _ hendless :=
    absurd hendless (Coercion.coerceArguments_ends (Coercion.constantsEnd_iff.mpr hdefaults) _ _ _)

/-! ### Selections -/

/-- **Selections that nest less deep than there are levels end.** The induction is on the levels. -/
theorem selectWithin_avoids_endless (hcallbacks : ctx.CallbacksAvoid (· = .endless)) {depth : Nat}
    {nodes : List Field} (hnest : ctx.NestWithin bound (nodes.map FieldNode.selections))
    (hdepth : bound < depth) : SelectAvoids (· = .endless) (ctx.selectWithin depth) nodes := by
  induction depth generalizing bound nodes with
  | zero => exact absurd hdepth (Nat.not_lt_zero bound)
  | succ depth ih =>
    intro object value path
    refine executeGroups_avoids hcallbacks object _ (fun group hgroup => ?_) false value path
    obtain ⟨lower, rfl, hbelow⟩ := hnest.of_mem_collectFields hgroup
    exact ih hbelow (Nat.lt_of_succ_lt_succ hdepth)

/-- **More levels make no difference** to selections that do not need them. -/
theorem selectWithin_eq_of_nestWithin {depth depth' : Nat} {nodes : List Field}
    (hnest : ctx.NestWithin bound (nodes.map FieldNode.selections)) (hdepth : bound < depth)
    (hdepth' : bound < depth') :
    SelectsSame (ctx.selectWithin depth) (ctx.selectWithin depth') nodes := by
  induction depth generalizing bound depth' nodes with
  | zero => exact absurd hdepth (Nat.not_lt_zero bound)
  | succ depth ih =>
    -- There is a level left on the other side as well, and both take one for the same fields.
    obtain ⟨depth', rfl⟩ := Nat.exists_eq_succ_of_ne_zero (Nat.ne_zero_of_lt hdepth')
    intro object value path hpath
    refine executeGroups_congr (.refl ctx) (fun group hgroup => ?_) (fun _ _ _ _ _ _ _ => rfl) false value
    obtain ⟨lower, rfl, hbelow⟩ := hnest.of_mem_collectFields hgroup
    exact ih hbelow (Nat.lt_of_succ_lt_succ hdepth) (Nat.lt_of_succ_lt_succ hdepth')

/-! ### Operations -/

section Operations

variable (hacyclic : Fragments.AcyclicFrom ctx.fragments ctx.operation.selections)
include hacyclic

/-- The operation nests as deep as its fields do. -/
theorem nestWithin_nesting : ctx.NestWithin ctx.nesting [ctx.operation.selections] where
  acyclic := by
    rw [List.flatten_singleton]
    exact hacyclic
  heights := by
    rw [List.flatten_singleton]
    exact Nat.le_refl _

/-- There are levels enough for the operation. -/
theorem nesting_le_depthLimit : ctx.nesting ≤ ctx.depthLimit :=
  (Selection.heights_inlined_le_of_acyclicFrom hacyclic).trans (Nat.le_add_right _ _)

/-- **An operation ends.** -/
theorem respond_ends (hdefaults : ∀ field, ¬ Coercion.Recurs ctx.schema.types field)
    (hsettles : ctx.Settles) : ctx.respond.Settles := by
  have hcallbacks := callbacksAvoid_endless hdefaults hsettles
  refine settles_iff_avoids.mpr (respond_avoids (fun _ => Abort.noConfusion) fun root _ => ?_)
  refine executeGroups_avoids hcallbacks root _ (fun group hgroup => ?_) _ _ .empty
  obtain ⟨lower, hnesting, hbelow⟩ := (nestWithin_nesting hacyclic).of_mem_collectFields hgroup
  have hlevels := nesting_le_depthLimit hacyclic
  exact selectWithin_avoids_endless hcallbacks hbelow (by omega)

/-- **The levels never decide:** with any number that the operation needs it is executed in the same
way. -/
theorem executeWithin_eq {levels : Nat} (hlevels : ctx.nesting ≤ levels) :
    ctx.executeWithin levels = ctx.executeOperation := by
  rw [← executeWithin_depthLimit, executeWithin, executeWithin]
  cases ctx.rootType? with
  | none => rfl
  | some root =>
    -- The root fields nest less deep than the operation, and less deep than the limit.
    have hgroups : ctx.executeGroups (ctx.selectWithin levels) ctx.isSerial root ctx.rootValue .empty
          (ctx.collectFields root [ctx.operation.selections]) =
        ctx.executeGroups (ctx.selectWithin ctx.depthLimit) ctx.isSerial root ctx.rootValue .empty
          (ctx.collectFields root [ctx.operation.selections]) := by
      refine executeGroups_congr (.refl ctx) (fun group hgroup => ?_) (fun _ _ _ _ _ _ _ => rfl) _ _
      obtain ⟨lower, hnesting, hbelow⟩ := (nestWithin_nesting hacyclic).of_mem_collectFields hgroup
      have hlimit := nesting_le_depthLimit hacyclic
      exact selectWithin_eq_of_nestWithin hbelow (by omega) (by omega)
    simp only [hgroups]

/-- The paths that an operation leads to have no more keys than it nests deep. -/
theorem LeadsFromRoot.countP_isField_le {path : ErrorPath} (h : ctx.LeadsFromRoot path) :
    path.countP PathSegment.isField ≤ ctx.nesting := by
  obtain rfl | ⟨root, -, hleads⟩ := h
  · exact Nat.zero_le _
  · exact hleads.countP_isField_le (nestWithin_nesting hacyclic)

end Operations

/-- Every error of a response is at a path that the operation leads to. -/
theorem leadsFromRoot_of_mem_errors {response : Response} (h : ctx.respond.outcome = .ok response)
    {error : GraphQLError} (hmem : error ∈ response.errors) :
    ∃ path, error.path = some path ∧ ctx.LeadsFromRoot path := by
  have hanswer := answer_of_outcome h
  rw [hanswer.errors] at hmem
  obtain ⟨recorded, hrecorded, rfl⟩ := List.mem_map.mp hmem
  obtain ⟨path, hfails⟩ := (CompletionTree.mem_failures_iff reachedTree_grown).mp
    (hanswer.recorded.mem_iff.mp hrecorded)
  refine ⟨path, ?_, ctx.tree_allPlaces path _ (subtree?_of_reachedTree hfails).1⟩
  rw [path_shownError, reachedTree_grown.error_path hfails, List.nil_append]

end ExecutionContext

/-! ### Requests -/

section Requests

variable {schema : Schema} {document : Document} {params : ExecutionParams} {ctx : ExecutionContext}

/-- All executions of a request are of its schema, and of the operation that it selects. -/
theorem ExecutionContext.Executes.select_eq (h : Executes schema document params ctx) :
    ctx.schema = schema ∧ ctx.fragments = document.fragments ∧
      select schema document params.operationName = .ok ctx.operation := by
  obtain ⟨requested, hbuild, rfl | ⟨payload, rfl⟩⟩ := h <;>
  · obtain ⟨operation, vars, hselect, -, rfl⟩ := build_eq_ok_iff.mp hbuild
    exact ⟨rfl, rfl, hselect⟩

/-- The resolvers that a request calls are those of its executions. -/
theorem ResolversSettle.settles (h : ResolversSettle schema params)
    (hexecutes : ExecutionContext.Executes schema document params ctx) : ctx.Settles := by
  -- An execution has the callbacks of the request, also for an event.
  have hcallbacks : ctx.schema = schema ∧ ctx.fieldResolver = params.fieldResolver ∧
      ctx.middleware = params.middleware := by
    obtain ⟨requested, hbuild, rfl | ⟨payload, rfl⟩⟩ := hexecutes <;>
    · obtain ⟨operation, vars, -, -, rfl⟩ := ExecutionContext.build_eq_ok_iff.mp hbuild
      exact ⟨rfl, rfl, rfl⟩
  obtain ⟨rfl, hresolver, hmiddleware⟩ := hcallbacks
  intro typeName fieldName atRoot
  rw [hmiddleware]
  refine h.intercepted typeName fieldName _ ?_
  -- What the middleware gets is the resolver of the field, the payload of an event or the default
  -- one.
  rw [ExecutionContext.baseResolver]
  cases hown : (ctx.schema.fieldHooks typeName fieldName).resolver with
  | some resolver => exact h.own typeName fieldName resolver hown
  | none =>
    dsimp only
    split
    · exact Resolver.payload_settles
    · exact hresolver ▸ h.default

end Requests

/-- **Every execution of a request ends**, whatever objects its resolvers return, if these resolvers
settle, no default recurs and no fragment that the operation reaches spreads itself. It is not cut off:
with any number of levels that the operation needs it is executed in the same way. All places of its
response, and all errors, are at paths that the operation leads to: a path has no more keys than the
fields of the operation nest deep with all fragments written out, and after each key no more indices than
the type of the field has lists. The completion of a raw value is no larger than the value. -/
theorem execution_ends (schema : Schema) (document : Document) (params : ExecutionParams)
    (hdefaults : ∀ field, ¬ Coercion.Recurs schema.types field)
    (hacyclic : ∀ operation,
      ExecutionContext.select schema document params.operationName = .ok operation →
        Fragments.AcyclicFrom document.fragments operation.selections)
    (hsettles : ResolversSettle schema params) :
    (execute schema document params).Settles ∧
    ∀ ctx, ExecutionContext.Executes schema document params ctx →
      ctx.respond.Settles ∧
      (∀ levels, ctx.nesting ≤ levels → ctx.executeWithin levels = ctx.executeOperation) ∧
      (∀ path inner, ctx.tree.subtree? path = some inner →
        ctx.LeadsFromRoot path ∧ path.countP PathSegment.isField ≤ ctx.nesting) ∧
      (∀ response, ctx.respond.outcome = .ok response →
        response.data = ctx.reachedTree.completed.valueOrNull ∧
        ∀ error ∈ response.errors, ∃ path, error.path = some path ∧
          ctx.LeadsFromRoot path ∧ path.countP PathSegment.isField ≤ ctx.nesting) ∧
      ∀ info value,
        (CompletionTree.ofValue ctx CompletionTree.cut info value).size ≤ value.size := by
  -- An execution has the fragments of the document and an operation that is selected from it.
  have hends : ∀ ctx, ExecutionContext.Executes schema document params ctx → ctx.respond.Settles ∧
      Fragments.AcyclicFrom ctx.fragments ctx.operation.selections := by
    intro ctx hexecutes
    obtain ⟨rfl, hfragments, hselect⟩ := hexecutes.select_eq
    have hreached : Fragments.AcyclicFrom ctx.fragments ctx.operation.selections :=
      hfragments ▸ hacyclic ctx.operation hselect
    exact ⟨ctx.respond_ends hreached hdefaults (hsettles.settles hexecutes), hreached⟩
  constructor
  · rw [execute]
    cases hbuild : ExecutionContext.build schema document params with
    | error why =>
      -- A request is only cut short by the coercion of its variables, which ends.
      obtain ⟨operation, -, hcoerce⟩ := ExecutionContext.build_eq_abort_iff.mp hbuild
      refine settles_iff_avoids.mpr (avoids_abort_iff.mpr fun hendless => ?_)
      exact Coercion.coerceVariables_ne_endless (Coercion.constantsEnd_iff.mpr hdefaults) _ _ _
        (hendless ▸ hcoerce)
    | ok result =>
      cases result with
      | error errors => exact settles_iff_avoids.mpr (.finish _ _)
      | ok ctx => exact (hends ctx ⟨ctx, hbuild, .inl rfl⟩).1
  · intro ctx hexecutes
    obtain ⟨hsettled, hreached⟩ := hends ctx hexecutes
    have hbound : ∀ path, ctx.LeadsFromRoot path →
        ctx.LeadsFromRoot path ∧ path.countP PathSegment.isField ≤ ctx.nesting :=
      fun path hleads => ⟨hleads, hleads.countP_isField_le hreached⟩
    refine ⟨hsettled, fun levels => ctx.executeWithin_eq hreached, fun path inner hinner => ?_,
      fun response hresponse => ⟨?_, fun error hmem => ?_⟩, fun info value => ?_⟩
    -- A place of the tree is one that the operation leads to.
    · exact hbound path (ctx.tree_allPlaces path inner hinner)
    -- The data is what the reached tree is completed to.
    · exact (ExecutionContext.answer_of_outcome hresponse).data
    -- Errors are at places of the tree.
    · obtain ⟨path, hpath, hleads⟩ := ExecutionContext.leadsFromRoot_of_mem_errors hresponse hmem
      exact ⟨path, hpath, hbound path hleads⟩
    -- The completion of a raw value follows the value.
    · exact CompletionTree.size_ofLayers_le _ _ _ _ value

namespace Sample

/-- How to search, with a limit by default. -/
def search : InputObjectType where
  name := "Search"
  description := none
  fields := .ofList [⟨"limit", none, .named "Int", some (.int 10)⟩]

/-- A user with a friend, who is another user. -/
def befriended : ObjectType :=
  { user with
    fields := user.fields.add
      ⟨"friend", none, .named "User", .ofList [⟨"by", none, .named "Search", none⟩]⟩ }

/-- A resolver that returns another object, whatever it is called for. -/
def another : Resolver := fun _ => .returned [] (.ok (.source none []))

/-- Calls for a schema in which every user has a friend. -/
def friendCalls : List BuilderCall :=
  [.register ⟨.object query, .none⟩, .register ⟨.object befriended, .none⟩,
    .register ⟨.inputObject search, .none⟩, .resolver "User" "friend" another]

/-- The schema that they make. -/
def friendSchema : Schema :=
  (SchemaBuilder.ofCalls "Query" none none friendCalls).finish.toOption.getD
    ⟨⟨[], "", none, none, []⟩, [], .standard⟩

/-- The friend of the friend of the user, in a document with circular fragments that it does not
reach. -/
def friendDocument : Document where
  operations := .anonymous { operation with
    selections := [selection "user" [.spread "friend" [], selection "id" []]] }
  fragments := circularFragments ++
    [("friend", fragment "User" [selection "friend" [selection "friend" [selection "name" []]]])]

/-- All other fields have other objects as values as well. -/
def friendParams : ExecutionParams := { fieldResolver := another }

/-- The limit is no object, so its default comes to no other one. -/
theorem friendSchema_not_recurs (field : InputValueDefinition) :
    ¬ Coercion.Recurs friendSchema.types field := by
  intro hrecurs
  have hfields : Coercion.defaultedFields friendSchema.types =
      [⟨"limit", none, .named "Int", some (.int 10)⟩] := rfl
  have hmem := hrecurs.mem_defaultedFields
  rw [hfields] at hmem
  rw [List.mem_singleton.mp hmem] at hrecurs
  obtain ⟨next, ⟨fallback, hfallback, hcomes⟩, -⟩ := Relation.TransGen.head'_iff.mp hrecurs
  obtain rfl : Value.int 10 = fallback := Option.some.inj hfallback
  cases hcomes

/-- Only the fragment for the friend is reached, and it spreads nothing. -/
theorem friendDocument_acyclicFrom (operation : OperationDefinition)
    (h : ExecutionContext.select friendSchema friendDocument none = .ok operation) :
    Fragments.AcyclicFrom friendDocument.fragments operation.selections := by
  obtain rfl := Except.ok.inj h
  -- The fragment for the friend spreads nothing.
  have hnothing : ∀ other, ¬ Fragments.Spreads friendDocument.fragments "friend" other := by
    rintro other ⟨definition, hget, hspread, -⟩
    obtain rfl := Option.some.inj hget
    exact absurd hspread List.not_mem_nil
  rintro name ⟨first, hfirst, hpath⟩ hcircle
  obtain rfl : first = "friend" := List.mem_singleton.mp hfirst
  -- A way from it to a circle would start with a spread.
  obtain rfl | ⟨other, hspread, -⟩ := hpath.cases_head
  · obtain ⟨other, hspread, -⟩ := Relation.TransGen.head'_iff.mp hcircle
    exact hnothing other hspread
  · exact hnothing other hspread

theorem another_settles : another.Settles := by
  intro resolverContext log resolution h
  cases h
  exact settles_iff_avoids.mpr (.finish _ _)

theorem friendResolvers_settle : ResolversSettle friendSchema friendParams where
  own typeName fieldName resolver h := by
    -- The only field with a resolver of its own is the friend of a user.
    have hhooks : friendSchema.hooks = [("Int", .none), ("Float", .none), ("String", .none),
        ("Boolean", .none), ("ID", .none), ("Query", .none),
        ("User", ⟨[("friend", ⟨some another, none⟩)], none⟩), ("Search", .none)] := rfl
    obtain ⟨type, htype, field, hfield, hresolver⟩ := Schema.mem_of_resolver h
    have hfriend : ∀ type ∈ friendSchema.hooks, ∀ field ∈ type.2.fields,
        field.2.resolver = some another := by simp [hhooks, TypeHooks.none]
    obtain rfl := Option.some.inj ((hfriend type htype field hfield).symm.trans hresolver)
    exact another_settles
  default := another_settles
  intercepted _ _ _ h := h

end Sample

/-- Friends of friends without an end: the query for two of them ends all the same. -/
theorem execution_ends_sample :
    (SchemaBuilder.ofCalls "Query" none none Sample.friendCalls).finish = .ok Sample.friendSchema ∧
    (∀ field, ¬ Coercion.Recurs Sample.friendSchema.types field) ∧
    (∀ operation, ExecutionContext.select Sample.friendSchema Sample.friendDocument none = .ok operation →
      Fragments.AcyclicFrom Sample.friendDocument.fragments operation.selections) ∧
    ResolversSettle Sample.friendSchema Sample.friendParams ∧
    ¬ Fragments.Acyclic Sample.friendDocument.fragments ∧
    (execute Sample.friendSchema Sample.friendDocument Sample.friendParams).Settles ∧
    ∃ ctx, ExecutionContext.Executes Sample.friendSchema Sample.friendDocument Sample.friendParams ctx ∧
      ctx.nesting = 4 ∧ ctx.executeWithin 4 = ctx.executeOperation ∧
      ∀ path inner, ctx.tree.subtree? path = some inner → path.countP PathSegment.isField ≤ 4 := by
  -- The two fragments that are not reached spread each other.
  have hcircular : ¬ Fragments.Acyclic Sample.friendDocument.fragments := by
    intro hacyclic
    have hthere : Fragments.Spreads Sample.friendDocument.fragments "name" "id" :=
      ⟨_, rfl, by decide, rfl⟩
    have hback : Fragments.Spreads Sample.friendDocument.fragments "id" "name" :=
      ⟨_, rfl, by decide, rfl⟩
    exact hacyclic "name" (.head hthere (.single hback))
  obtain ⟨hends, hexecutions⟩ := execution_ends Sample.friendSchema Sample.friendDocument
    Sample.friendParams Sample.friendSchema_not_recurs Sample.friendDocument_acyclicFrom
    Sample.friendResolvers_settle
  -- The request is executed, which is a matter of computation.
  have hexecutes : ExecutionContext.Executes Sample.friendSchema Sample.friendDocument
      Sample.friendParams _ := ⟨_, rfl, .inl rfl⟩
  obtain ⟨-, hlevels, hpaths, -⟩ := hexecutions _ hexecutes
  refine ⟨rfl, Sample.friendSchema_not_recurs, Sample.friendDocument_acyclicFrom,
    Sample.friendResolvers_settle, hcircular, hends, _, hexecutes, rfl, hlevels 4 (Nat.le_refl 4),
    fun path inner hinner => (hpaths path inner hinner).2⟩

end GraphQL
