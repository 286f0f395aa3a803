import GraphQL.Proofs.Execution.Collection
import GraphQL.Proofs.Execution.EventPlaces
import GraphQL.Proofs.Execution.GrownTrees
import GraphQL.Proofs.Execution.Panics
import GraphQL.Proofs.Execution.Scheduling

/-!
# Serial mutations

Where the settings say so, the root fields of a mutation run one after the other: nothing of a field
happens before everything of the fields in front of it has happened, and after an error that is left
to the root no further field is called. The data are those of the mutation with its fields run side
by side, and the errors are some of those.

* `InTurn keys trace` — the events of a trace are those of the keys, one key after the other;
* `executeInTurn_trace` — fields that stay within their places run in turn, by induction on them;
* `executeInTurn_stop` — nothing after a field that leaves an error plays a part;
* `completedPlaces_reachedInTurn`, `tree_withSerial` — what the places that are not reached would
  have added to the data: nothing;
* `serial_mutation` — the three properties of every mutation.
-/

open scoped List

namespace GraphQL

open CompletionTree

/-! ### One key after the other -/

/-- The keys are distinct, every place of a trace is that of a key or inside of it, and two places
in order are those of one key or of two keys in their order. -/
structure InTurn (keys : List String) (trace : List ErrorPath) : Prop where
  nodup : keys.Nodup
  belongs : ∀ path ∈ trace, ∃ key ∈ keys, [.field key] <+: path
  ordered : trace.Pairwise fun earlier later => ∀ key key', [.field key] <+: earlier →
    [.field key'] <+: later → key = key' ∨ [key, key'] <+ keys

namespace InTurn

variable {keys : List String} {trace : List ErrorPath} {key : String}

theorem nil (hnodup : keys.Nodup) : InTurn keys [] where
  nodup := hnodup
  belongs _ hmem := absurd hmem List.not_mem_nil
  ordered := .nil

/-- A place belongs to one key only. -/
theorem key_unique {path : ErrorPath} {key key' : String} (h : [.field key] <+: path)
    (h' : [.field key'] <+: path) : key = key' := by
  obtain ⟨rest, rfl⟩ := h
  obtain ⟨rest', hpath⟩ := h'
  have hhead : PathSegment.field key' = .field key := (List.cons.inj hpath).1
  exact (PathSegment.field.inj hhead).symm

/-- All that happens to one key, and then what happens to the keys after it. -/
theorem cons {first : List ErrorPath} (hkey : key ∉ keys)
    (hfirst : ∀ path ∈ first, [.field key] <+: path) (hrest : InTurn keys trace) :
    InTurn (key :: keys) (first ++ trace) where
  nodup := List.nodup_cons.mpr ⟨hkey, hrest.nodup⟩
  belongs path hmem := by
    rcases List.mem_append.mp hmem with hmem | hmem
    · exact ⟨key, List.mem_cons_self, hfirst path hmem⟩
    · obtain ⟨other, hother, hpath⟩ := hrest.belongs path hmem
      exact ⟨other, List.mem_cons_of_mem key hother, hpath⟩
  ordered := by
    refine List.pairwise_append.mpr ⟨?_, ?_, ?_⟩
    · -- Two events of the first key.
      refine List.pairwise_of_forall_mem_list fun earlier hearlier later hlater k k' hk hk' => ?_
      have hkey : k = key := key_unique hk (hfirst earlier hearlier)
      have hkey' : k' = key := key_unique hk' (hfirst later hlater)
      exact .inl (hkey.trans hkey'.symm)
    -- Two events of later keys are ordered as they are among themselves.
    · refine hrest.ordered.imp fun h k k' hk hk' => ?_
      exact (h k k' hk hk').imp_right (List.Sublist.cons key)
    · -- An event of the first key and one of a key after it.
      intro earlier hearlier later hlater k k' hk hk'
      have hkey : k = key := key_unique hk (hfirst earlier hearlier)
      obtain ⟨other, hother, hpath⟩ := hrest.belongs later hlater
      have hkey' : k' = other := key_unique hk' hpath
      subst hkey hkey'
      exact .inr ((List.singleton_sublist.mpr hother).cons_cons k)

end InTurn

/-! ### Fields one after the other -/

namespace ExecutionContext

section Groups

variable {execute : String → List Field → Run Completed}

/-- **Fields that stay within their places run in turn**, also if one of them breaks down. The
induction is on the fields: what is logged is what the first one logs, followed by what the others
log if that has a value. -/
theorem executeInTurn_trace {groups : FieldGroups} (hnodup : (Entries.keys groups).Nodup)
    (h : ∀ group ∈ groups, (execute group.1 group.2).Logs (Event.Within [.field group.1])) :
    InTurn (Entries.keys groups) (Event.trace (executeInTurn execute groups).log) := by
  induction groups with
  | nil => exact .nil hnodup
  | cons group rest ih =>
    obtain ⟨hkey, hdistinct⟩ := List.nodup_cons.mp hnodup
    have hfirst : ∀ path ∈ Event.trace (execute group.1 group.2).log, [.field group.1] <+: path := by
      intro path hmem
      obtain ⟨event, hevent, hplace⟩ := Event.mem_trace.mp hmem
      exact h group List.mem_cons_self event hevent path hplace
    have hrest : InTurn (Entries.keys rest) (Event.trace (executeInTurn execute rest).log) :=
      ih hdistinct fun other hmem => h other (List.mem_cons_of_mem group hmem)
    -- The trace if nothing happens after the first field.
    have halone : InTurn (group.1 :: Entries.keys rest)
        (Event.trace (execute group.1 group.2).log ++ []) := .cons hkey hfirst (.nil hdistinct)
    rw [executeInTurn]
    -- Only a value of the first field lets the others run.
    cases houtcome : (execute group.1 group.2).outcome with
    | error why =>
      rw [Coroutine.log_bind_of_error _ houtcome, ← List.append_nil (Event.trace _)]
      exact halone
    | ok result =>
      rw [Coroutine.log_bind _ houtcome, Event.trace_append]
      cases result with
      | error error => exact halone
      | ok value =>
        rw [Coroutine.log_map]
        exact .cons hkey hfirst hrest

/-- **After an error that is left to the object nothing is executed**, so that the fields after it
might as well not be there. -/
theorem executeInTurn_stop {before after : FieldGroups} {key : String} {nodes : List Field}
    {error : GraphQLError} (h : (execute key nodes).outcome = .ok (.error error)) :
    executeInTurn execute (before ++ (key, nodes) :: after) =
      executeInTurn execute (before ++ [(key, nodes)]) := by
  induction before with
  | nil =>
    rw [List.nil_append, List.nil_append, executeInTurn, executeInTurn]
    refine Coroutine.bind_congr fun result hresult => ?_
    obtain rfl : result = .error error := Except.ok.inj (hresult.symm.trans h)
    rfl
  | cons group rest ih =>
    rw [List.cons_append, List.cons_append, executeInTurn, executeInTurn, ih]

end Groups

end ExecutionContext

/-! ### What is not reached adds nothing to the data -/

namespace CompletionTree

theorem completedPlaces_reachedInTurn (places : List (Place CompletionTree)) :
    completedPlaces (reachedInTurn places) = completedPlaces places := by
  induction places with
  | nil => rfl
  | cons place rest ih =>
    rw [reachedInTurn]
    cases hplace : place.completed with
    | error error => simp only [completedPlaces_cons, hplace]
    | ok value => simp only [completedPlaces_cons, hplace, ih]

/-- The places that are reached leave the error of all of them, or have the value of all of them. -/
theorem completed_inTurn (tree : CompletionTree) : tree.inTurn.completed = tree.completed := by
  cases tree with
  | branch shape places =>
    rw [inTurn, completed, completed, completedPlaces_reachedInTurn]
  | _ => rfl

/-- The places that are reached fail as they do among all places. -/
theorem failures_inTurn_sublist (tree : CompletionTree) :
    tree.inTurn.failures <+ tree.failures := by
  -- The places that are reached are the first ones.
  cases tree with
  | branch shape places =>
    rw [inTurn, failures, failures, failuresAmong_eq_flatMap, failuresAmong_eq_flatMap]
    -- What fails in the others is left out.
    obtain ⟨unreached, hplaces⟩ := reachedInTurn_initial places
    calc (reachedInTurn places).flatMap (fun place => place.tree.failures)
        <+ (reachedInTurn places).flatMap (fun place => place.tree.failures) ++
          unreached.flatMap (fun place => place.tree.failures) := List.sublist_append_left _ _
      _ = places.flatMap (fun place => place.tree.failures) := by
        rw [← List.flatMap_append, hplaces]
  | _ => exact .refl _

theorem isSound_inTurn {tree : CompletionTree} (h : tree.IsSound) : tree.inTurn.IsSound := by
  cases tree with
  | branch shape places =>
    rw [inTurn, isSound_branch_iff]
    rw [isSound_branch_iff] at h
    exact fun place hmem => h place ((reachedInTurn_initial places).subset hmem)
  | _ => exact h

end CompletionTree

/-! ### The setting -/

/-- The schema with serial mutations switched on or off. -/
def Schema.withSerial (schema : Schema) (serial : Bool) : Schema :=
  { schema with config := { schema.config with serialMutations := serial } }

namespace ExecutionContext

variable {ctx : ExecutionContext}

/-- The execution with serial mutations switched on or off. -/
def withSerial (ctx : ExecutionContext) (serial : Bool) : ExecutionContext :=
  { ctx with schema := ctx.schema.withSerial serial }

theorem collectFields_withSerial (serial : Bool) :
    (ctx.withSerial serial).collectFields = ctx.collectFields := by
  funext object selectionSets
  have hcongr := @collectFields_congr (ctx.withSerial serial) ctx rfl rfl rfl
  exact hcongr object selectionSets

theorem ofLayers_withSerial (serial : Bool) (grow : Grow) (typeName : String)
    (innerRequired : Bool) (info : ResolveInfo) (wrappers : List ListWrapping) (path : QueryPath)
    (value : FieldValue) :
    ofLayers (ctx.withSerial serial) grow typeName innerRequired info wrappers path value =
      ofLayers ctx grow typeName innerRequired info wrappers path value := by
  induction wrappers generalizing path value with
  | nil => rfl
  | cons wrapper inner ih =>
    rw [ofLayers, ofLayers]
    simp only [ih]

theorem fieldPlace_withSerial (serial : Bool) (grow : Grow) :
    (ctx.withSerial serial).fieldPlace grow = ctx.fieldPlace grow := by
  -- The setting is not looked at below the root fields.
  have hresolved : (ctx.withSerial serial).resolvedTree grow = ctx.resolvedTree grow := by
    funext info result
    cases result with
    | error why => rfl
    | ok result =>
      cases result with
      | error error => rfl
      | ok value => exact ofLayers_withSerial serial grow _ _ info _ _ value
  have hdefined : (ctx.withSerial serial).definedPlace grow = ctx.definedPlace grow := by
    funext object parent atRoot key definition node info
    rw [definedPlace, definedPlace, hresolved]
    rfl
  funext object parent path key nodes
  cases nodes with
  | nil => rfl
  | cons node others =>
    rw [fieldPlace, fieldPlace, hdefined]
    rfl

theorem growWithin_withSerial (serial : Bool) (depth : Nat) :
    (ctx.withSerial serial).growWithin depth = ctx.growWithin depth := by
  induction depth with
  | zero => rfl
  | succ depth ih =>
    rw [growWithin, growWithin, ih, collectFields_withSerial]
    simp only [groupsTree, fieldPlace_withSerial]

/-- What becomes of the fields does not depend on the setting. -/
theorem tree_withSerial (serial : Bool) : (ctx.withSerial serial).tree = ctx.tree := by
  have hdepth : (ctx.withSerial serial).depthLimit = ctx.depthLimit := rfl
  have hroot : (ctx.withSerial serial).rootType? = ctx.rootType? := rfl
  rw [tree, tree, hdepth, hroot, growWithin_withSerial, collectFields_withSerial]
  simp only [groupsTree, fieldPlace_withSerial]
  rfl

/-! ### Mutations -/

/-- The root fields of the operation by response key, in document order. -/
def rootGroups (ctx : ExecutionContext) : FieldGroups :=
  match ctx.rootType? with
  | none => []
  | some root => ctx.collectFields root [ctx.operation.selections]

/-- The run of the root field under a response key. -/
def rootField (ctx : ExecutionContext) (key : String) (nodes : List Field) : Run Completed :=
  match ctx.rootType? with
  | none => .finish [] (.ok .null)
  | some root =>
      ctx.executeField (ctx.selectWithin ctx.depthLimit) root ctx.rootValue .empty key nodes

theorem nodup_rootGroups (ctx : ExecutionContext) : (Entries.keys ctx.rootGroups).Nodup := by
  unfold rootGroups
  split
  · exact List.nodup_nil
  · exact (ctx.collectFields_grouped _ _).nodup

/-- A root field stays within its own place. -/
theorem rootField_within (key : String) (nodes : List Field) :
    (ctx.rootField key nodes).Logs (Event.Within [.field key]) := by
  unfold rootField
  split
  · exact .nothing _
  · exact executeField_within (selectWithin_within ctx.depthLimit) _ ctx.rootValue .empty key nodes

/-- A serial operation calls and settles what its root fields do in turn. -/
theorem trace_executeOperation (hserial : ctx.isSerial = true) :
    Event.trace ctx.executeOperation.log =
      Event.trace (executeInTurn ctx.rootField ctx.rootGroups).log := by
  unfold executeOperation rootField rootGroups
  cases ctx.rootType? with
  | none => rfl
  | some root =>
    simp only [executeGroups, hserial, if_true]
    generalize hturns : executeInTurn
      (ctx.executeField (ctx.selectWithin ctx.depthLimit) root ctx.rootValue .empty)
      (ctx.collectFields root [ctx.operation.selections]) = turns
    cases houtcome : (turns.map (Except.map Value.object)).outcome with
    | error why => rw [Coroutine.log_bind_of_error _ houtcome, Coroutine.log_map]
    | ok result =>
      -- What is logged after the fields is at most the error that they leave.
      rw [Coroutine.log_bind _ houtcome, Coroutine.log_map, Event.trace_append]
      cases result <;> exact List.append_nil _

/-- **Serial mutations answer as the others do, with some of their errors.** The other execution
reaches all fields of the same tree. Those that are reached in turn are the first ones, up to the
first error that is left to the root, which decides about the data in both. -/
theorem respond_of_serial {other : ExecutionContext} {response' : Response}
    (htree : other.reachedTree = ctx.tree) (hshown : other.shownError = ctx.shownError)
    (hserial : ctx.isSerial = true) (hresponse : other.respond.outcome = .ok response') :
    ∃ response, ctx.respond.outcome = .ok response ∧ response.data = response'.data ∧
      response.errors <+~ response'.errors := by
  have hanswer' := answer_of_outcome hresponse
  -- Run in turn, only some of the places are reached, in which nothing is broken that is whole in
  -- the others.
  have hreached : ctx.reachedTree = ctx.tree.inTurn := if_pos hserial
  have hsound : ctx.reachedTree.IsSound := by
    rw [hreached, ← htree]
    exact isSound_inTurn hanswer'.sound
  obtain ⟨response, hresponse⟩ := exists_response_iff.mpr hsound
  have hanswer := answer_of_outcome hresponse
  refine ⟨response, hresponse, ?_, ?_⟩
  -- The data is the same: it is decided by the first error left to the root, which both reach.
  · rw [hanswer.data, hanswer'.data, hreached, htree, completed_inTurn]
  · -- Each run reports the failures of its own tree, in an order of its own.
    have hturn : response.errors ~ ctx.tree.inTurn.failures.map ctx.shownError := by
      rw [hanswer.errors, ← hreached]
      exact hanswer.recorded.map ctx.shownError
    have hall : response'.errors ~ ctx.tree.failures.map ctx.shownError := by
      rw [hanswer'.errors, hshown, ← htree]
      exact hanswer'.recorded.map ctx.shownError
    have hsome : ctx.tree.inTurn.failures.map ctx.shownError <+
        ctx.tree.failures.map ctx.shownError := (failures_inTurn_sublist ctx.tree).map _
    exact (hturn.subperm.trans hsome.subperm).trans hall.symm.subperm

/-- The setting plays no part before the operation is executed. -/
theorem build_withSerial {schema : Schema} {document : Document} {params : ExecutionParams}
    (serial : Bool) (h : build schema document params = .ok (.ok ctx)) :
    build (schema.withSerial serial) document params = .ok (.ok (ctx.withSerial serial)) := by
  obtain ⟨operation, vars, hselect, hvars, rfl⟩ := build_eq_ok_iff.mp h
  exact build_eq_ok_iff.mpr ⟨operation, vars, hselect, hvars, rfl⟩

/-- **Serial mutations answer as the others do**, the resolvers of which may take their time. The
comparison is made in two steps: with the setting switched off the same resolvers reach the whole
tree, and agreeing resolvers grow an agreeing tree. -/
theorem execute_of_serial {schema schema' : Schema} {document : Document}
    {params params' : ExecutionParams} {response' : Response}
    (hbuild : build schema document params = .ok (.ok ctx)) (hserial : ctx.isSerial = true)
    (hother : schema' = schema.withSerial false ∧ params' = params ∨
      (schema.withSerial false).Agrees schema' ∧ params.Agrees params')
    (hresponse : (execute schema' document params').outcome = .ok response') :
    ∃ response, (execute schema document params).outcome = .ok response ∧
      response.data = response'.data ∧ response.errors <+~ response'.errors := by
  -- With the setting switched off the request selects the same operation, and reaches its whole
  -- tree.
  have hconcurrent := build_withSerial false hbuild
  have hreached : (ctx.withSerial false).reachedTree = ctx.tree := by
    have hoff : (ctx.withSerial false).isSerial = false := Bool.and_false _
    rw [reachedTree, hoff, tree_withSerial]
    rfl
  rw [execute_of_build hbuild]
  -- The other execution is that of this context with the setting switched off, or agrees with it.
  obtain ⟨other, hother, htree, hshown⟩ : ∃ other : ExecutionContext,
      build schema' document params' = .ok (.ok other) ∧ other.reachedTree = ctx.tree ∧
        other.shownError = ctx.shownError := by
    rcases hother with ⟨rfl, rfl⟩ | ⟨hschema, hparams⟩
    · exact ⟨_, hconcurrent, hreached, rfl⟩
    · rcases build_agrees document hschema hparams with hsame | ⟨off, other, hoff, hother, hagrees⟩
      · exact ⟨_, hsame ▸ hconcurrent, hreached, rfl⟩
      · obtain rfl : ctx.withSerial false = off :=
          Except.ok.inj (Except.ok.inj (hconcurrent.symm.trans hoff))
        refine ⟨other, hother, hagrees.reachedTree_eq.symm.trans hreached, ?_⟩
        have hconfig : (ctx.withSerial false).schema.config = other.schema.config :=
          hagrees.schema.config
        have hexpose : ctx.schema.config.exposeErrorCauses =
            other.schema.config.exposeErrorCauses := by rw [← hconfig]; rfl
        -- Errors are shown in the same way, as the configurations differ in the setting at most.
        funext error
        rw [shownError, shownError, hexpose]
  rw [execute_of_build hother] at hresponse
  exact respond_of_serial htree hshown hserial hresponse

end ExecutionContext

/-- **Serial mutations are serial.** Whatever the resolvers do and however long they take, the calls
and settlements of the root fields, all that they select included, come one root field after the
other; none comes after a root field that leaves an error to the root. If the mutation is answered
with its root fields side by side, by the same resolvers or by such that agree with them, it is
answered with the same data, and its errors are among those. -/
theorem serial_mutation {schema : Schema} {document : Document} {params : ExecutionParams}
    {ctx : ExecutionContext} (hbuild : ExecutionContext.build schema document params = .ok (.ok ctx))
    (hmutation : ctx.operation.type = .mutation) (hserial : schema.config.serialMutations = true) :
    InTurn (Entries.keys ctx.rootGroups) (Event.trace (execute schema document params).log) ∧
      (∀ before key nodes after error, ctx.rootGroups = before ++ (key, nodes) :: after →
        (ctx.rootField key nodes).outcome = .ok (.error error) →
        ∀ path ∈ Event.trace (execute schema document params).log, ∀ later ∈ after,
          ¬ [.field later.1] <+: path) ∧
      (∀ schema' params' response',
        schema' = schema.withSerial false ∧ params' = params ∨
          (schema.withSerial false).Agrees schema' ∧ params.Agrees params' →
        (execute schema' document params').outcome = .ok response' →
        ∃ response, (execute schema document params).outcome = .ok response ∧
          response.data = response'.data ∧ response.errors <+~ response'.errors) := by
  obtain rfl : ctx.schema = schema := (ExecutionContext.of_build hbuild).1
  have hturns : ctx.isSerial = true := by
    rw [ExecutionContext.isSerial, hmutation, hserial]
    rfl
  -- What is traced are the events of the root fields, as nothing else of the operation has a place.
  have htrace : Event.trace (execute ctx.schema document params).log =
      Event.trace (ExecutionContext.executeInTurn ctx.rootField ctx.rootGroups).log := by
    rw [execute_of_build hbuild, ExecutionContext.respond, ExecutionContext.respondWith_log,
      ExecutionContext.trace_executeOperation hturns]
  have hwithin : ∀ groups : FieldGroups, ∀ group ∈ groups,
      (ctx.rootField group.1 group.2).Logs (Event.Within [.field group.1]) :=
    fun _ group _ => ExecutionContext.rootField_within group.1 group.2
  have hnodup := ctx.nodup_rootGroups
  refine ⟨?_, ?_, ?_⟩
  -- Each field stays within its own key.
  · rw [htrace]
    exact ExecutionContext.executeInTurn_trace hnodup (hwithin _)
  · intro before key nodes after error hgroups hfailed path hmem later hlater hpath
    rw [htrace, hgroups, ExecutionContext.executeInTurn_stop hfailed] at hmem
    -- The fields up to the one that fails, and those after it, have no key in common.
    have hkeys : Entries.keys ctx.rootGroups =
        Entries.keys (before ++ [(key, nodes)]) ++ Entries.keys after := by
      rw [hgroups, Entries.keys, Entries.keys, Entries.keys, ← List.map_append]
      simp
    rw [hkeys] at hnodup
    obtain ⟨hfirst, -, hdisjoint⟩ := List.nodup_append.mp hnodup
    have hturn := ExecutionContext.executeInTurn_trace hfirst (hwithin _)
    obtain ⟨reached, hreached, hunder⟩ := hturn.belongs path hmem
    exact hdisjoint reached hreached later.1 (List.mem_map_of_mem hlater)
      (InTurn.key_unique hunder hpath)
  · intro schema' params' response' hother hresponse
    exact ExecutionContext.execute_of_serial hbuild hturns hother hresponse

/-! ### A mutation that stops at its second field -/

namespace MutationSample

/-- A field of integers under the given resolver. -/
def field (name : String) (nonNull : Bool) : FieldDefinition :=
  ⟨name, none, if nonNull then .namedNonNull "Int" else .named "Int", .empty⟩

def query : ObjectType := ⟨"Query", none, .ofList [field "a" false], [], none⟩

/-- The second field must not be null. -/
def mutation : ObjectType :=
  ⟨"Mutation", none, .ofList [field "a" false, field "b" true, field "c" false], [], none⟩

/-- The first field takes two visits more; the other two fail at once. -/
def hooks : TypeHooks where
  fields :=
    [("a", ⟨some (Resolver.standard.paced fun _ => 2), none⟩),
      ("b", ⟨some fun _ => .returned [] (.err (.new "b failed")), none⟩),
      ("c", ⟨some fun _ => .returned [] (.err (.new "c failed")), none⟩)]
  resolveType := none

/-- The schema that the builder makes, in which mutations are serial. -/
def schema : Schema :=
  (((SchemaBuilder.new "Query" (some "Mutation") none).register ⟨.object query, .none⟩).register
    ⟨.object mutation, hooks⟩).finish.toOption.getD ⟨⟨[], "", none, none, []⟩, [], .standard⟩

/-- The selection of a field without arguments. -/
def selection (name : String) : Selection := .field ⟨none, name, [], [], [], ⟨1, 1⟩⟩

def operation : OperationDefinition :=
  ⟨.mutation, [], [], [selection "a", selection "b", selection "c"], ⟨1, 1⟩⟩

def document : Document := ⟨.anonymous operation, []⟩

end MutationSample

theorem serial_mutation_sample :
    ∃ response response',
      (execute MutationSample.schema MutationSample.document {}).outcome = .ok response ∧
      Event.trace (execute MutationSample.schema MutationSample.document {}).log =
        [[.field "a"], [.field "a"], [.field "b"], [.field "b"]] ∧
      InTurn ["a", "b", "c"]
        (Event.trace (execute MutationSample.schema MutationSample.document {}).log) ∧
      (execute (MutationSample.schema.withSerial false) MutationSample.document {}).outcome =
        .ok response' ∧
      response.data = response'.data ∧ response.errors <+~ response'.errors ∧
      response.errors.length = 1 ∧ response'.errors.length = 2 := by
  obtain ⟨ctx, hbuild, hmutation, hkeys⟩ : ∃ ctx : ExecutionContext,
      ExecutionContext.build MutationSample.schema MutationSample.document {} = .ok (.ok ctx) ∧
        ctx.operation.type = .mutation ∧ Entries.keys ctx.rootGroups = ["a", "b", "c"] :=
    ⟨_, rfl, rfl, rfl⟩
  obtain ⟨response', hresponse', herrors'⟩ : ∃ response' : Response,
      (execute (MutationSample.schema.withSerial false) MutationSample.document {}).outcome =
        .ok response' ∧ response'.errors.length = 2 := ⟨_, rfl, rfl⟩
  obtain ⟨hturns, -, hanswers⟩ := serial_mutation hbuild hmutation rfl
  obtain ⟨response, hresponse, hdata, herrors⟩ := hanswers _ _ _ (.inl ⟨rfl, rfl⟩) hresponse'
  have hone : ∀ answer : Response,
      (execute MutationSample.schema MutationSample.document {}).outcome = .ok answer →
        answer.errors.length = 1 := by
    intro answer hanswer
    obtain rfl := Except.ok.inj hanswer
    rfl
  exact ⟨response, response', hresponse, rfl, hkeys ▸ hturns, hresponse', hdata, herrors,
    hone response hresponse, herrors'⟩

end GraphQL
