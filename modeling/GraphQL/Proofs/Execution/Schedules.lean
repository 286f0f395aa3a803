import GraphQL.Proofs.Coroutine.Schedules
import GraphQL.Proofs.Execution.Accounting

/-!
# The schedule of an operation

In which visit which resolver is called is fixed by how long the resolvers take: a field is called in
the visit in which the object around it is there, and this one is there when its own resolver has
settled. So the calls of an operation follow a schedule that is found by plain recursion.

* `Event.callPlaces` — the places of the fields whose resolvers are called;
* `SettlementTree.schedule`, `ExecutionContext.schedule` — the schedule of a place and of the operation;
* `follows_invoke` — a resolver is called at once, and its other visits call nothing;
* `scheduling`, `respond_follows` — the operation follows its schedule, up to where it breaks down.
-/

open scoped List

namespace GraphQL

/-! ### The calls of resolvers -/

namespace Event

/-- The place of the field whose resolver is called. -/
def callPlace? (event : Event) : Option ErrorPath :=
  event.call?.map fun call => call.path.toErrorPath

/-- The places of the fields whose resolvers are called, in order. -/
def callPlaces (events : List Event) : List ErrorPath := events.filterMap callPlace?

theorem callPlaces_eq_map (events : List Event) :
    callPlaces events = (calls events).map fun call => call.path.toErrorPath := by
  rw [calls, List.map_filterMap]
  rfl

theorem callPlaces_eq_nil {events : List Event} (h : calls events = []) :
    events.filterMap callPlace? = [] := by
  have hplaces := callPlaces_eq_map events
  rw [h] at hplaces
  exact hplaces

end Event

/-! ### Schedules -/

/-- The resolver is called, and then waits for what it needs. -/
def Settlement.schedule (settlement : Settlement) : Schedule ErrorPath :=
  .pause settlement.place settlement.yields

namespace SettlementTree

mutual

/-- The calls inside a place: what is inside of it runs side by side. -/
def schedule : SettlementTree → Schedule ErrorPath
  | .node members => .together (schedules members)
termination_by structural tree => tree

/-- The calls at and inside of some members: what is inside a member starts when its resolver has
settled. -/
def schedules : List (Member SettlementTree) → List (Schedule ErrorPath)
  | [] => []
  | ⟨settlement, inner⟩ :: rest =>
      (settlement.elim .idle Settlement.schedule).andThen (schedule inner) :: schedules rest
termination_by structural members => members

end

end SettlementTree

/-- The calls at and inside of a member. -/
def Member.schedule (member : Member SettlementTree) : Schedule ErrorPath :=
  (member.settlement.elim .idle Settlement.schedule).andThen member.inner.schedule

theorem SettlementTree.schedules_eq_map (members : List (Member SettlementTree)) :
    schedules members = members.map Member.schedule := by
  induction members with
  | nil => rfl
  | cons member rest ih => exact congrArg (member.schedule :: ·) ih

theorem SettlementTree.schedule_node (members : List (Member SettlementTree)) :
    (node members).schedule = .together (members.map Member.schedule) := by
  rw [schedule, schedules_eq_map]

theorem SettlementTree.schedule_ne_nil (tree : SettlementTree) : tree.schedule ≠ [] := by
  cases tree with
  | node members => rw [schedule]; exact Schedule.together_ne_nil _

theorem Member.schedule_of_none (inner : SettlementTree) :
    (⟨none, inner⟩ : Member SettlementTree).schedule = inner.schedule :=
  Schedule.idle_andThen inner.schedule_ne_nil

theorem Member.schedule_ne_nil (member : Member SettlementTree) : member.schedule ≠ [] :=
  Schedule.andThen_ne_nil member.inner.schedule_ne_nil

/-- What is inside a member is visited as a part of it. -/
theorem Member.within_schedule (member : Member SettlementTree) :
    member.inner.schedule.Within member.schedule :=
  Schedule.Within.andThen_right _ _

/-- The calls of an operation, visit by visit. -/
def ExecutionContext.schedule (ctx : ExecutionContext) : Schedule ErrorPath :=
  let schedules := ctx.rootMembers.map Member.schedule
  if ctx.isSerial then .inTurn schedules else .together schedules

/-! ### What happens at all -/

section Flatten

theorem Member.flatten_schedule (member : Member SettlementTree) :
    member.schedule.flatten =
      member.settlement.toList.map Settlement.place ++ member.inner.schedule.flatten := by
  rw [schedule, Schedule.flatten_andThen]
  cases member.settlement with
  | none => rfl
  | some settlement => exact congrArg (· ++ _) (Schedule.flatten_pause _ _)

/-- The schedule of a place has the calls of its settlements. -/
theorem SettlementTree.flatten_schedule_perm (tree : SettlementTree) :
    tree.schedule.flatten ~ tree.settlements.map Settlement.place := by
  induction tree with
  | node members ih =>
    rw [schedule_node, settlements, settlementsAmong_eq_flatMap, List.map_flatMap]
    refine (Schedule.flatten_together_perm _).trans ?_
    rw [List.flatMap_map]
    refine .flatMap_left members fun member hmem => ?_
    rw [member.flatten_schedule, Member.settlements, List.map_append]
    exact (ih member hmem).append_left _

theorem Member.flatten_schedule_perm (member : Member SettlementTree) :
    member.schedule.flatten ~ member.settlements.map Settlement.place := by
  rw [flatten_schedule, settlements, List.map_append]
  exact member.inner.flatten_schedule_perm.append_left _

/-- **The schedule of an operation has the calls of its settlements.** -/
theorem ExecutionContext.flatten_schedule_perm (ctx : ExecutionContext) :
    ctx.schedule.flatten ~ ctx.settlements.map Settlement.place := by
  have hmembers : (ctx.rootMembers.map Member.schedule).flatMap List.flatten ~
      ctx.settlements.map Settlement.place := by
    rw [settlements, List.map_flatMap, List.flatMap_map]
    exact .flatMap_left _ fun member _ => member.flatten_schedule_perm
  rw [schedule]
  split
  · rw [Schedule.flatten_inTurn]
    exact hmembers
  · exact (Schedule.flatten_together_perm _).trans hmembers

end Flatten

/-! ### Where nothing has to wait -/

section Order

variable {ready : ErrorPath → Prop}

/-- Settlements at places that are ready take no time. -/
def Settlement.IsReady (ready : ErrorPath → Prop) (settlement : Settlement) : Prop :=
  ready settlement.place → settlement.yields = 0

theorem Member.keepsOrder {member : Member SettlementTree}
    (hinner : member.inner.schedule.KeepsOrder ready
      (member.inner.settlements.map Settlement.place))
    (h : ∀ settlement ∈ member.settlements, settlement.IsReady ready) :
    member.schedule.KeepsOrder ready (member.settlements.map Settlement.place) := by
  rw [schedule, settlements, List.map_append]
  refine Schedule.KeepsOrder.andThen ?_ hinner
  rcases member with ⟨_ | settlement, inner⟩
  · exact .idle ready
  · exact .pause (h settlement List.mem_cons_self)

/-- **The calls inside a place are in document order**, as far as nothing has to wait. -/
theorem SettlementTree.schedule_keepsOrder (tree : SettlementTree)
    (h : ∀ settlement ∈ tree.settlements, settlement.IsReady ready) :
    tree.schedule.KeepsOrder ready (tree.settlements.map Settlement.place) := by
  induction tree with
  | node members ih =>
    rw [settlements, settlementsAmong_eq_flatMap] at h
    rw [schedule_node, settlements, settlementsAmong_eq_flatMap, List.map_flatMap]
    refine .together fun member hmem => ?_
    have hmember : ∀ settlement ∈ member.settlements, settlement.IsReady ready :=
      fun settlement hsettlement => h settlement (List.mem_flatMap.mpr ⟨member, hmem, hsettlement⟩)
    refine Member.keepsOrder (ih member hmem fun settlement hsettlement => ?_) hmember
    exact hmember settlement (List.mem_append_right _ hsettlement)

/-- **The calls of an operation are in document order**, as far as nothing has to wait. -/
theorem ExecutionContext.schedule_keepsOrder (ctx : ExecutionContext)
    (h : ∀ settlement ∈ ctx.settlements, settlement.IsReady ready) :
    ctx.schedule.KeepsOrder ready (ctx.settlements.map Settlement.place) := by
  have hmembers : ∀ member ∈ ctx.rootMembers,
      member.schedule.KeepsOrder ready (member.settlements.map Settlement.place) := by
    intro member hmem
    have hmember : ∀ settlement ∈ member.settlements, settlement.IsReady ready :=
      fun settlement hsettlement => h settlement (List.mem_flatMap.mpr ⟨member, hmem, hsettlement⟩)
    refine Member.keepsOrder (member.inner.schedule_keepsOrder fun settlement hin => ?_) hmember
    exact hmember settlement (List.mem_append_right _ hin)
  rw [schedule, settlements, List.map_flatMap]
  split
  · exact .inTurn hmembers
  · exact .together hmembers

end Order

/-! ### Runs -/

/-- The run calls the resolvers of the schedule. -/
abbrev CallsAt {α : Type} (run : Run α) (schedule : Schedule ErrorPath) : Prop :=
  run.Follows Event.callPlace? schedule

/-- **A resolver is called at once**, and its other visits call nothing. -/
theorem invoke_callsAt (ctx : ExecutionContext) (resolver : Resolver)
    (resolverContext : ResolverContext) :
    CallsAt (ctx.invoke resolver resolverContext)
      (.pause resolverContext.info.path.toErrorPath (resolver.yields resolverContext)) := by
  have hresolving : CallsAt (ctx.resolving resolver resolverContext)
      (List.replicate (resolver.yields resolverContext + 1) []) := by
    rw [← ctx.polls_resolving]
    exact .of_unmarked (Event.callPlaces_eq_nil (ctx.calls_resolving resolver resolverContext))
  rw [ctx.invoke_eq_resolving]
  have hsettled := hresolving.bind_finish fun result =>
    ⟨[.settled resolverContext.info.path], result, rfl, rfl⟩
  exact hsettled.prepend rfl

/-- **The calls of a run are those of the schedule of its tree.** -/
def scheduling (ctx : ExecutionContext) : Accounting ctx where
  Holds run member := CallsAt run member.schedule
  HoldsInTurn run members := CallsAt run (.inTurn (members.map Member.schedule))
  finish log result hlog := .finish result (Event.callPlaces_eq_nil hlog)
  abort log why member hlog := .of_abort why (Event.callPlaces_eq_nil hlog) member.schedule_ne_nil
  prepend {_ _ member _} hlog h := by
    have hprepend := h.prepend (Event.callPlaces_eq_nil hlog)
    rw [← Schedule.idle, Schedule.idle_beside member.schedule_ne_nil] at hprepend
    exact hprepend
  bind_quiet hnext h := h.bind_finish fun result => by
    obtain ⟨log, value, hvalue, hlog⟩ := hnext result
    exact ⟨log, value, hvalue, Event.callPlaces_eq_nil hlog⟩
  joinAll h := by
    have hgroup := Coroutine.Follows.joinAll h
    rw [Member.schedule_of_none, SettlementTree.schedule_node, List.map_map]
    exact hgroup
  call hnext _ := by
    refine (invoke_callsAt ctx _ _).bind fun result hresult => ?_
    have hinner := hnext result hresult
    rw [Member.schedule_of_none] at hinner
    exact hinner
  nil result := .finish result rfl
  broken why := .of_abort why rfl (List.cons_ne_nil _ _)
  cons h hnext := h.bind hnext
  inTurn_bind_quiet hnext h := h.bind_finish fun result => by
    obtain ⟨log, value, hvalue, hlog⟩ := hnext result
    exact ⟨log, value, hvalue, Event.callPlaces_eq_nil hlog⟩

namespace ExecutionContext

/-- Making a response takes no further visit and calls nothing. -/
theorem respondWith_callsAt {run : Run Value} {schedule : Schedule ErrorPath}
    (h : CallsAt run schedule) (expose : Bool) (recorded : List GraphQLError) :
    CallsAt (respondWith expose recorded run) schedule := by
  induction h generalizing recorded with
  | finish result h => exact .finish _ h
  | abort why later h => exact .abort why later h
  | suspend h hrest ih => exact .suspend h (ih _)

/-- **An operation calls the resolvers of its schedule**, visit by visit. -/
theorem respond_callsAt (ctx : ExecutionContext) : CallsAt ctx.respond ctx.schedule := by
  refine respondWith_callsAt ?_ _ _
  rw [schedule]
  cases hserial : ctx.isSerial with
  | true => exact (scheduling ctx).executeOperation_inTurn hserial
  | false =>
    have htogether := (scheduling ctx).executeOperation_together hserial
    simp only [scheduling, Member.schedule_of_none, SettlementTree.schedule_node] at htogether
    exact htogether

end ExecutionContext

end GraphQL
