import GraphQL.Proofs.Execution.Accounting
import GraphQL.Proofs.Execution.SerialMutations

/-!
# The number of visits is the critical path

An execution is visited as a whole: on every visit all members of a group that are unfinished go on,
and a field goes on with its value in the visit in which its resolver settles. So the visits that an
operation takes are those of the slowest chain of resolvers that wait for each other.

* `Settles run cost settlements` — if the run of a part ends, it has taken that many visits, and
  every error that one of the resolvers ended with is a failure in its log;
* `Settles.bind`, `Settles.joinAll` — the composites;
* `settling`, `executeOperation_settles` — what is said of the parts is said of the operation;
* `polls_eq_cost` — an operation takes as many visits as its critical path is long.
-/

namespace GraphQL

/-- The failure is that of a field whose resolver has ended with an error. -/
def GraphQLError.Reports (failure : GraphQLError) (path : QueryPath) (error : ResolverError) : Prop :=
  ∃ locations, failure =
    (error.toGraphQLError.withLocations locations).withPath path.toErrorPath

/-- A run that has ended: the visits that it took, and what its resolvers did. -/
structure Account {α : Type} (run : Run α) (cost : Nat) (settlements : List Settlement) : Prop where
  polls : run.polls = cost
  reported : ∀ settlement ∈ settlements, ∀ error, settlement.result = .ok (.error error) →
    ∃ failure ∈ Event.failures run.log, failure.Reports settlement.path error

/-- If the run ends, it has taken that many visits and its resolvers have done what is said. -/
def Settles {α : Type} (run : Run α) (cost : Nat) (settlements : List Settlement) : Prop :=
  ∀ result, run.outcome = .ok result → Account run cost settlements

namespace Settles

open Coroutine

variable {α β ι : Type} {run : Run α} {cost cost' : Nat} {settlements settlements' : List Settlement}

/-- What is over at once, without any resolver. -/
theorem finish (log : List Event) (result : α) : Settles (.finish log result) 0 [] :=
  fun _ _ => ⟨rfl, fun _ hmem => absurd hmem List.not_mem_nil⟩

/-- What breaks down does not end. -/
theorem abort (log : List Event) (why : Abort) : Settles (.abort log why : Run α) cost settlements :=
  fun _ h => nomatch h

/-- **One after the other** the visits add up. -/
theorem bind {next : α → Run β} (h : Settles run cost settlements)
    (hnext : ∀ value, run.outcome = .ok value → Settles (next value) cost' settlements') :
    Settles (run.bind next) (cost + cost') (settlements ++ settlements') := by
  intro result hresult
  -- Both runs have come to an end, as the whole has.
  obtain ⟨value, hvalue, hresult⟩ := exists_of_outcome_bind hresult
  have hfirst := h value hvalue
  have hsecond := hnext value hvalue result hresult
  refine ⟨?_, fun settlement hmem error herror => ?_⟩
  -- The visits of the second run come after those of the first one.
  · rw [polls_bind next hvalue, hfirst.polls, hsecond.polls]
  -- A settlement is one of the first run or of the second one, and is reported there.
  · rw [log_bind next hvalue, Event.failures, List.filterMap_append]
    rcases List.mem_append.mp hmem with hmem | hmem
    · obtain ⟨failure, hfailure, hreports⟩ := hfirst.reported settlement hmem error herror
      exact ⟨failure, List.mem_append_left _ hfailure, hreports⟩
    · obtain ⟨failure, hfailure, hreports⟩ := hsecond.reported settlement hmem error herror
      exact ⟨failure, List.mem_append_right _ hfailure, hreports⟩

/-- What follows at once takes no further visit. -/
theorem bind_quiet {next : α → Run β} (hnext : IsQuiet next) (h : Settles run cost settlements) :
    Settles (run.bind next) cost settlements := by
  have hbind : Settles (run.bind next) (cost + 0) (settlements ++ []) := by
    refine h.bind fun value _ => ?_
    obtain ⟨log, result, hresult, -⟩ := hnext value
    rw [hresult]
    exact finish log result
  rw [Nat.add_zero, List.append_nil] at hbind
  exact hbind

/-- What happens at once before a run takes no further visit. -/
theorem prepend {log : List Event} (h : Settles run cost settlements) :
    Settles (run.prepend log) cost settlements := by
  have hbind : Settles ((Coroutine.finish log ()).bind fun _ => run) (0 + cost)
      ([] ++ settlements) := (finish log ()).bind fun _ _ => h
  rw [Nat.zero_add, List.nil_append] at hbind
  exact hbind

/-- The settlement of a resolver that has ended with an error has to be reported. -/
theorem cons {settlement : Settlement} (h : Settles run cost settlements)
    (hreported : ∀ error, settlement.result = .ok (.error error) →
      ∃ failure ∈ Event.failures run.log, failure.Reports settlement.path error) :
    Settles run cost (settlement :: settlements) := by
  intro result hresult
  have haccount := h result hresult
  refine ⟨haccount.polls, fun other hmem error herror => ?_⟩
  rcases List.mem_cons.mp hmem with rfl | hmem
  · exact hreported error herror
  · exact haccount.reported other hmem error herror

/-- **A group takes as long as its slowest member.** -/
theorem joinAll {members : List ι} {run : ι → Run α} {cost : ι → Nat}
    {settlements : ι → List Settlement}
    (h : ∀ i ∈ members, Settles (run i) (cost i) (settlements i)) :
    Settles (Coroutine.joinAll (members.map run)) ((members.map cost).foldr max 0)
      (members.flatMap settlements) := by
  intro results hresults
  have hends : ∀ i ∈ members, ∃ result, (run i).outcome = .ok result := fun i hi =>
    exists_of_outcome_joinAll hresults (List.mem_map_of_mem hi)
  have haccount : ∀ i ∈ members, Account (run i) (cost i) (settlements i) := by
    intro i hi
    obtain ⟨result, hresult⟩ := hends i hi
    exact h i hi result hresult
  refine ⟨?_, fun settlement hmem error herror => ?_⟩
  · have hcosts : (members.map fun i => (run i).polls) = members.map cost :=
      List.map_congr_left fun i hi => (haccount i hi).polls
    rw [polls_joinAll hends, hcosts]
  · obtain ⟨i, hi, hmem⟩ := List.mem_flatMap.mp hmem
    obtain ⟨failure, hfailure, hreports⟩ := (haccount i hi).reported settlement hmem error herror
    refine ⟨failure, ?_, hreports⟩
    -- The log of a group has the events of all its members, in some order.
    obtain ⟨-, hlog⟩ := exists_outcome_joinAll hends
    rw [Event.failures, (hlog.filterMap _).mem_iff, List.filterMap_flatMap]
    exact List.mem_flatMap.mpr ⟨i, hi, hfailure⟩

end Settles

/-! ### Executions -/

/-- The call of a resolver takes as long as the resolution that it returns. -/
theorem ExecutionContext.polls_invoke {ctx : ExecutionContext} {resolver : Resolver}
    {resolverContext : ResolverContext} {result : ResolverResult}
    (h : (ctx.invoke resolver resolverContext).outcome = .ok result) :
    (ctx.invoke resolver resolverContext).polls = resolver.yields resolverContext := by
  rw [invoke_eq_resolving, Coroutine.outcome_prepend] at h
  obtain ⟨value, hvalue, -⟩ := Coroutine.exists_of_outcome_bind h
  rw [invoke_eq_resolving, Coroutine.polls_prepend, Coroutine.polls_bind _ hvalue, Coroutine.polls,
    Nat.add_zero, polls_resolving]

/-- **The visits of a run are those of the tree of its settlements**: siblings side by side take as long
as the slowest of them, and what is inside a field starts when its resolver has settled. -/
def settling (ctx : ExecutionContext) : Accounting ctx where
  Holds run member := Settles run member.cost member.settlements
  HoldsInTurn run members :=
    Settles run (members.map Member.cost).sum (members.flatMap Member.settlements)
  finish log result _ := .finish log result
  abort log why _ _ := .abort log why
  prepend _ h := h.prepend
  bind_quiet hnext h := h.bind_quiet hnext
  joinAll {_ _ items _ member} h := by
    have hgroup := Settles.joinAll h
    rw [Member.cost, Member.settlements, SettlementTree.cost, SettlementTree.settlements,
      SettlementTree.costAmong_eq_foldr, SettlementTree.settlementsAmong_eq_flatMap, List.map_map,
      List.flatMap_map, Option.elim_none, Nat.zero_add]
    exact hgroup
  call {object parent atRoot node info arguments next inner} hnext hfails := by
    let settlement := ctx.settlement object parent atRoot node info arguments
    have hcall : Settles (ctx.invoke (ctx.middleware.wrap object.name node.name
        (ctx.baseResolver object.name node.name atRoot)) ⟨parent, arguments, info, ctx.context⟩)
        settlement.yields [] :=
      fun _ hresult => ⟨ExecutionContext.polls_invoke hresult,
        fun _ hmem => absurd hmem List.not_mem_nil⟩
    -- What the resolver ends with is reported after its call, where its value would be completed.
    show Settles _ (settlement.yields + inner.cost) ([] ++ settlement :: inner.settlements)
    refine hcall.bind fun result hresult => ?_
    have hinner : Settles (next result) inner.cost inner.settlements := by
      have hholds := hnext result hresult
      rw [Member.cost, Option.elim_none, Nat.zero_add] at hholds
      exact hholds
    refine hinner.cons fun error herror => ?_
    obtain rfl : result = .error error := Except.ok.inj (hresult.symm.trans herror)
    exact ⟨_, hfails error herror, _, rfl⟩
  nil result := .finish [] result
  broken why := .abort [] why
  cons h hnext := h.bind hnext
  inTurn_bind_quiet hnext h := h.bind_quiet hnext

namespace ExecutionContext

variable {ctx : ExecutionContext}

/-- **The run of an operation** takes as long as its critical path. -/
theorem executeOperation_settles : Settles ctx.executeOperation ctx.cost ctx.settlements := by
  rw [cost]
  cases hserial : ctx.isSerial with
  | true => exact (settling ctx).executeOperation_inTurn hserial
  | false =>
    have htogether := (settling ctx).executeOperation_together hserial
    simp only [settling, Member.cost, Option.elim_none, Nat.zero_add, SettlementTree.cost,
      SettlementTree.costAmong_eq_foldr, Member.settlements, SettlementTree.settlements,
      SettlementTree.settlementsAmong_eq_flatMap] at htogether
    exact htogether

/-- Making a response takes no further visit. -/
theorem polls_respondWith (expose : Bool) (recorded : List GraphQLError) (run : Run Value) :
    (respondWith expose recorded run).polls = run.polls := by
  induction run generalizing recorded with
  | suspend log rest ih => exact congrArg (· + 1) (ih _)
  | _ => rfl

/-- **The visits of an execution**, and the reports of the resolvers that it calls. -/
theorem respond_settles : Settles ctx.respond ctx.cost ctx.settlements := by
  intro response hresponse
  rw [respond, respondWith_outcome] at hresponse
  rw [respond]
  -- What is answered changes neither the visits nor the reports of the operation.
  cases houtcome : ctx.executeOperation.outcome with
  | error why =>
    rw [houtcome] at hresponse
    cases hresponse
  | ok data =>
    have haccount := executeOperation_settles data houtcome
    refine ⟨?_, ?_⟩
    · rw [polls_respondWith]
      exact haccount.polls
    · rw [respondWith_log]
      exact haccount.reported

end ExecutionContext

/-- **The number of visits is the critical path.** An operation that is answered takes as many visits
as the slowest of its root fields, or, where they run one after the other, as all of them together
that are executed. So it is answered at once exactly if none of these takes any time. -/
theorem polls_eq_cost {schema : Schema} {document : Document} {params : ExecutionParams}
    {ctx : ExecutionContext} {response : Response}
    (hbuild : ExecutionContext.build schema document params = .ok (.ok ctx))
    (hresponse : (execute schema document params).outcome = .ok response) :
    (execute schema document params).polls = ctx.cost ∧
      ((execute schema document params).isReady = true ↔ ctx.cost = 0) := by
  rw [execute_of_build hbuild] at hresponse ⊢
  have hpolls : ctx.respond.polls = ctx.cost := (ctx.respond_settles response hresponse).polls
  exact ⟨hpolls, hpolls ▸ Coroutine.isReady_iff_polls⟩

/-- The sample with a user who takes three visits, a name that takes two more, and counts that take
four. -/
def Sample.nestedParams : ExecutionParams :=
  { Sample.params with
    fieldResolver := Resolver.standard.paced fun ctx =>
      if ctx.info.fieldName = "user" then 3
      else if ctx.info.fieldName = "name" then 2
      else if ctx.info.fieldName = "counts" then 4 else 0 }

/-- The name waits for its user, and the counts wait for neither. The third field of the mutation is
not reached. -/
theorem polls_eq_cost_sample :
    (∃ ctx response,
      ExecutionContext.build Sample.schema Sample.document Sample.nestedParams = .ok (.ok ctx) ∧
      (execute Sample.schema Sample.document Sample.nestedParams).outcome = .ok response ∧
      ctx.rootMembers.map Member.cost = [5, 4] ∧
      (execute Sample.schema Sample.document Sample.nestedParams).polls = 5 ∧
      (execute Sample.schema Sample.document Sample.nestedParams).isReady = false) ∧
    ∃ ctx response,
      ExecutionContext.build MutationSample.schema MutationSample.document {} = .ok (.ok ctx) ∧
      (execute MutationSample.schema MutationSample.document {}).outcome = .ok response ∧
      ctx.rootMembers.map Member.cost = [2, 0] ∧
      (execute MutationSample.schema MutationSample.document {}).polls = 2 := by
  -- Both requests are executed, and their costs computed.
  obtain ⟨ctx, hbuild, hcosts, hcost⟩ : ∃ ctx,
      ExecutionContext.build Sample.schema Sample.document Sample.nestedParams = .ok (.ok ctx) ∧
        ctx.rootMembers.map Member.cost = [5, 4] ∧ ctx.cost = 5 := ⟨_, rfl, rfl, rfl⟩
  obtain ⟨response, hresponse⟩ : ∃ response,
      (execute Sample.schema Sample.document Sample.nestedParams).outcome = .ok response :=
    ⟨_, rfl⟩
  obtain ⟨ctx', hbuild', hcosts', hcost'⟩ : ∃ ctx,
      ExecutionContext.build MutationSample.schema MutationSample.document {} = .ok (.ok ctx) ∧
        ctx.rootMembers.map Member.cost = [2, 0] ∧ ctx.cost = 2 := ⟨_, rfl, rfl, rfl⟩
  obtain ⟨response', hresponse'⟩ : ∃ response,
      (execute MutationSample.schema MutationSample.document {}).outcome = .ok response :=
    ⟨_, rfl⟩
  obtain ⟨hpolls, hready⟩ := polls_eq_cost hbuild hresponse
  obtain ⟨hpolls', -⟩ := polls_eq_cost hbuild' hresponse'
  -- Five visits are more than none.
  have hwaits : ¬ (execute Sample.schema Sample.document Sample.nestedParams).isReady = true := by
    rw [hready, hcost]
    decide
  exact ⟨⟨ctx, response, hbuild, hresponse, hcosts, hpolls.trans hcost, by simpa using hwaits⟩,
    ctx', response', hbuild', hresponse', hcosts', hpolls'.trans hcost'⟩

end GraphQL
