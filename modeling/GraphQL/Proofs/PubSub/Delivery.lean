import GraphQL.Proofs.PubSub.Table

/-!
# Nothing is lost, doubled or reordered

Any number of clients open subscriptions, publish, poll and drop, in any order. `PubSub.after` is
the table that comes of it. What has happened to a subscription is told from the actions alone:

* `PubSub.opened` — how many subscriptions have been opened, which is the number of the next one;
* `PubSub.live` — the subscriptions that have not been dropped, with their triggers;
* `PubSub.published` — the payloads published under any of some triggers.

`PubSub.IsExact` compares this with what the table does. The step lemmas are `handed_queue_act` for
a subscription that stays and `inbox?_act_of_gone` for one that is gone; `isExact` follows from them
by induction on the actions.

For a subscription that stays the induction carries a balance: what it has been handed, followed by what
is queued for it, is what was queued at first, followed by what has been published since. No step can
break it, as a payload is only ever added at the end of the queue and taken from its front, and each only
once. Started with the empty queue of a new subscription, the balance is the statement that payloads are
delivered in order and none of them twice. All that is said of counts and of the end of a stream rests on
`Consistent`: the lists of the table and the triggers of the inboxes are two records of the same facts.
-/

namespace GraphQL

namespace PubSub

/-- Something that a client does. -/
inductive Action where
  | subscribe (triggers : List String)
  | publish (trigger : String) (payload : FieldValue)
  | poll (id : Nat)
  | drop (id : Nat)

namespace Action

/-- Whether a subscription is opened. -/
def opens : Action → Bool
  | .subscribe _ => true
  | .publish _ _ | .poll _ | .drop _ => false

/-- Whether the subscription of the given number is dropped. -/
def drops (id : Nat) : Action → Bool
  | .drop dropped => dropped == id
  | .subscribe _ | .publish _ _ | .poll _ => false

/-- The payload that is published, if it is published under one of the triggers. -/
def published? (triggers : List String) : Action → Option FieldValue
  | .publish trigger payload => if trigger ∈ triggers then some payload else none
  | .subscribe _ | .poll _ | .drop _ => none

end Action

/-! ### What happens, told from the actions alone -/

/-- How many subscriptions are opened. -/
def opened (actions : List Action) : Nat := actions.countP Action.opens

/-- Whether the subscription of the given number is dropped. -/
def isDropped (id : Nat) (actions : List Action) : Bool := actions.any (Action.drops id)

/-- The payloads that are published under any of the triggers, in order. A payload is published
once, however many of the triggers are the one it is published under. -/
def published (triggers : List String) (actions : List Action) : List FieldValue :=
  actions.filterMap (Action.published? triggers)

/-- The subscriptions that are opened and not dropped later, numbered from the given number on, each
with its triggers. -/
def liveFrom (next : Nat) : List Action → List (Nat × List String)
  | [] => []
  | .subscribe triggers :: rest =>
      if isDropped next rest then liveFrom (next + 1) rest
      else (next, triggers) :: liveFrom (next + 1) rest
  | .publish _ _ :: rest | .poll _ :: rest | .drop _ :: rest => liveFrom next rest

/-- The live subscriptions after some actions. -/
def live (actions : List Action) : List (Nat × List String) := liveFrom 0 actions

/-- How many live subscriptions list a trigger. -/
def liveCount (actions : List Action) (trigger : String) : Nat :=
  (live actions).countP fun subscription => subscription.2.contains trigger

/-! ### What the table makes of it -/

/-- The table after an action. -/
def act (hub : PubSub) : Action → PubSub
  | .subscribe triggers => (hub.subscribe triggers).2
  | .publish trigger payload => (hub.publish trigger payload).2
  | .poll id => (hub.poll id).2
  | .drop id => hub.unsubscribe id

/-- The table after some actions. -/
def after (hub : PubSub) (actions : List Action) : PubSub := actions.foldl act hub

/-- The payload that an action hands to a subscription. -/
def handed? (hub : PubSub) (id : Nat) : Action → Option FieldValue
  | .poll polled => if polled = id then (hub.poll id).1.item? else none
  | .subscribe _ | .publish _ _ | .drop _ => none

/-- The payloads that some actions hand to a subscription, in order. -/
def delivered (id : Nat) (hub : PubSub) : List Action → List FieldValue
  | [] => []
  | action :: rest => (hub.handed? id action).toList ++ delivered id (hub.act action) rest

/-- **What clients can rely on** after some actions on a table that was empty before them. -/
structure IsExact (actions : List Action) : Prop where
  /-- A subscription gets a number of its own: how many there were before it. -/
  number : ∀ triggers, ((empty.after actions).subscribe triggers).1 = opened actions
  /-- What a live subscription has been handed and what is queued for it are the payloads published
  under any of its triggers since it was opened, in order, each once. -/
  delivery : ∀ before triggers later, actions = before ++ .subscribe triggers :: later →
    isDropped (opened before) later = false →
      delivered (opened before) (empty.after (before ++ [.subscribe triggers])) later ++
          (empty.after actions).queue (opened before) = published triggers later
  /-- The stream of a live subscription ends exactly if it lists no trigger. -/
  ending : ∀ before triggers later, actions = before ++ .subscribe triggers :: later →
    isDropped (opened before) later = false →
      (((empty.after actions).poll (opened before)).1 = .ended ↔ triggers = [])
  /-- A subscription that has been dropped is handed nothing more, and nothing is queued for it. -/
  silence : ∀ before triggers later, actions = before ++ .subscribe triggers :: later →
    isDropped (opened before) later = true →
      (empty.after actions).inbox? (opened before) = none ∧
        ∀ further, delivered (opened before) (empty.after actions) further = []
  /-- Dropping a subscription leaves the others what belongs to them, and what they find next. -/
  independence : ∀ id other, other ≠ id →
    ((empty.after actions).unsubscribe id).inbox? other = (empty.after actions).inbox? other ∧
      (((empty.after actions).unsubscribe id).poll other).1 = ((empty.after actions).poll other).1
  /-- Publishing tells how many live subscriptions list the trigger. -/
  reached : ∀ trigger payload,
    ((empty.after actions).publish trigger payload).1 = liveCount actions trigger
  /-- So does counting the subscribers of a trigger. -/
  counted : ∀ trigger, (empty.after actions).subscriberCount trigger = liveCount actions trigger
  /-- No trigger is kept without a subscription. -/
  nonempty : ∀ entry ∈ (empty.after actions).byTrigger, entry.2 ≠ []
  /-- Once all subscriptions have been dropped, no trigger is kept at all. -/
  cleared : live actions = [] → (empty.after actions).byTrigger = []

section Steps

variable {hub : PubSub} {id : Nat} {action : Action} {inbox : Inbox}

theorem Consistent.act (h : hub.Consistent) (action : Action) : (hub.act action).Consistent := by
  cases action with
  | subscribe triggers => exact h.subscribe triggers
  | publish trigger payload => exact h.publish trigger payload
  | poll id => exact h.poll id
  | drop id => exact h.unsubscribe id

/-- Numbers are given out in turn. -/
theorem nextId_act (hub : PubSub) (action : Action) :
    (hub.act action).nextId = hub.nextId + opened [action] := by
  cases action with
  | subscribe triggers => rfl
  | publish trigger payload => rfl
  | poll polled =>
    change (hub.poll polled).2.nextId = hub.nextId
    -- A poll changes one queue at most.
    rcases poll_snd hub polled with hsame | ⟨left, hleft⟩
    · rw [hsame]
    · rw [hleft]
      rfl
  | drop dropped =>
    change (hub.unsubscribe dropped).nextId = hub.nextId
    rw [unsubscribe]
    cases hub.inbox? dropped <;> rfl

/-- **One action on a subscription that stays.** What it hands over comes from the front of the
queue, and what it publishes under one of the triggers goes to the end. -/
theorem handed_queue_act (h : hub.Consistent) (hinbox : hub.inbox? id = some inbox)
    (hstays : action.drops id = false) :
    ∃ queue, (hub.act action).inbox? id = some ⟨inbox.triggers, queue⟩ ∧
      (hub.handed? id action).toList ++ queue =
        inbox.queue ++ (action.published? inbox.triggers).toList := by
  cases action with
  | subscribe triggers =>
    -- The new subscription has another number, as numbers are given out in turn.
    have hold : id ≠ hub.nextId := Nat.ne_of_lt (h.old _ (mem_of_inbox? hinbox))
    refine ⟨inbox.queue, ?_, (List.append_nil _).symm⟩
    rw [act, inbox?_subscribe h, if_neg hold, hinbox]
  | publish trigger payload =>
    rw [act, inbox?_publish h, hinbox, Option.map_some]
    by_cases htrigger : trigger ∈ inbox.triggers
    -- The payload is queued, which is what has been published.
    · refine ⟨inbox.queue ++ [payload], by rw [if_pos htrigger], ?_⟩
      rw [Action.published?, if_pos htrigger]
      rfl
    -- The trigger is none of this subscription's.
    · refine ⟨inbox.queue, by rw [if_neg htrigger], ?_⟩
      rw [Action.published?, if_neg htrigger]
      exact (List.append_nil _).symm
  | poll polled =>
    rw [act, inbox?_poll, hinbox, Option.map_some, handed?]
    by_cases hpolled : polled = id
    · subst hpolled
      refine ⟨inbox.queue.tail, by rw [if_pos rfl], ?_⟩
      -- The poll is for this subscription: it takes the first payload of the queue.
      have hqueue : hub.queue polled = inbox.queue := by rw [queue, hinbox]; rfl
      rw [if_pos rfl, item?_poll, hqueue, Action.published?, Option.toList_none, List.append_nil]
      cases inbox.queue <;> rfl
    -- The poll is for another subscription.
    · refine ⟨inbox.queue, by rw [if_neg fun heq => hpolled heq.symm], ?_⟩
      rw [if_neg hpolled]
      exact (List.append_nil _).symm
  | drop dropped =>
    -- As it stays, another subscription is dropped.
    have hne : id ≠ dropped := fun heq => beq_eq_false_iff_ne.mp hstays heq.symm
    refine ⟨inbox.queue, ?_, (List.append_nil _).symm⟩
    rw [act, inbox?_unsubscribe_of_ne hne, hinbox]

/-- **One action on a subscription that is gone.** Its number is not given again. -/
theorem inbox?_act_of_gone (h : hub.Consistent) (hgone : hub.inbox? id = none)
    (hold : id < hub.nextId) :
    (hub.act action).inbox? id = none ∧ hub.handed? id action = none := by
  cases action with
  | subscribe triggers =>
    -- The number has been given out, so that no new subscription gets it.
    rw [act, inbox?_subscribe h, if_neg (Nat.ne_of_lt hold)]
    exact ⟨hgone, rfl⟩
  | publish trigger payload =>
    rw [act, inbox?_publish h, hgone]
    exact ⟨rfl, rfl⟩
  | poll polled =>
    rw [act, inbox?_poll, hgone, handed?]
    refine ⟨rfl, ?_⟩
    -- Without an inbox nothing is queued for it.
    have hqueue : hub.queue id = [] := by rw [queue, hgone]; rfl
    rw [item?_poll, hqueue]
    split <;> rfl
  | drop dropped =>
    refine ⟨?_, rfl⟩
    by_cases heq : id = dropped
    · subst heq
      exact inbox?_unsubscribe
    · rw [act, inbox?_unsubscribe_of_ne heq, hgone]

/-- The open subscriptions with their triggers. -/
def subscriptions (hub : PubSub) : List (Nat × List String) :=
  hub.inboxes.map fun entry => (entry.1, entry.2.triggers)

/-- Changes of what is queued leave the subscriptions as they are. -/
theorem subscriptions_modifyInboxes (ids : List Nat) {f : Inbox → Inbox}
    (hf : ∀ inbox, (f inbox).triggers = inbox.triggers) :
    (hub.modifyInboxes ids f).subscriptions = hub.subscriptions := by
  rw [subscriptions, subscriptions, modifyInboxes, List.map_map]
  refine List.map_congr_left fun entry _ => ?_
  rw [Function.comp_apply]
  split
  · rw [hf]
  · rfl

/-- A subscription is dropped by its number; all others stay. -/
theorem subscriptions_unsubscribe (hub : PubSub) (id : Nat) :
    (hub.unsubscribe id).subscriptions =
      hub.subscriptions.filter fun subscription => subscription.1 != id := by
  rw [unsubscribe, subscriptions, subscriptions, List.filter_map]
  cases hinbox : hub.inbox? id with
  | some inbox => rfl
  | none =>
    dsimp only
    refine congrArg _ (List.filter_eq_self.mpr fun entry hmem => ?_).symm
    exact bne_iff_ne.mpr (bne_iff_ne.mp (List.lookup_eq_none_iff.mp hinbox entry hmem)).symm

end Steps

section Runs

variable {hub : PubSub} {id : Nat} {inbox : Inbox}

theorem Consistent.after (h : hub.Consistent) (actions : List Action) :
    (hub.after actions).Consistent := by
  induction actions generalizing hub with
  | nil => exact h
  | cons action rest ih => exact ih (h.act action)

theorem nextId_after (hub : PubSub) (actions : List Action) :
    (hub.after actions).nextId = hub.nextId + opened actions := by
  induction actions generalizing hub with
  | nil => rfl
  | cons action rest ih =>
    have hopened : opened (action :: rest) = opened [action] + opened rest :=
      @List.countP_append _ _ [action] rest
    calc (hub.after (action :: rest)).nextId
        = (hub.act action).nextId + opened rest := ih (hub.act action)
      _ = hub.nextId + opened [action] + opened rest := by rw [nextId_act]
      _ = hub.nextId + opened (action :: rest) := by rw [hopened, Nat.add_assoc]

theorem after_append (hub : PubSub) (actions further : List Action) :
    hub.after (actions ++ further) = (hub.after actions).after further := List.foldl_append

theorem isDropped_cons (id : Nat) (action : Action) (rest : List Action) :
    isDropped id (action :: rest) = (action.drops id || isDropped id rest) := rfl

/-- **A subscription that stays**: what it is handed and what is then queued for it are what was
queued at first and what has been published since. The induction is on the actions, from any table
on. -/
theorem delivered_queue_after {actions : List Action} (h : hub.Consistent)
    (hinbox : hub.inbox? id = some inbox) (hstays : isDropped id actions = false) :
    ∃ queue, (hub.after actions).inbox? id = some ⟨inbox.triggers, queue⟩ ∧
      delivered id hub actions ++ queue = inbox.queue ++ published inbox.triggers actions := by
  induction actions generalizing hub inbox with
  | nil => exact ⟨inbox.queue, hinbox, (List.append_nil _).symm⟩
  | cons action rest ih =>
    obtain ⟨hfirst, hrest⟩ := Bool.or_eq_false_iff.mp (isDropped_cons id action rest ▸ hstays)
    -- The step balances, and so do the later ones from the queue that it leaves.
    obtain ⟨queue, hqueue, hbalance⟩ := handed_queue_act h hinbox hfirst
    obtain ⟨queue', hqueue', hbalance'⟩ := ih (h.act action) hqueue hrest
    refine ⟨queue', hqueue', ?_⟩
    have hpublished : published inbox.triggers (action :: rest) =
        (action.published? inbox.triggers).toList ++ published inbox.triggers rest := by
      rw [published, List.filterMap_cons]
      cases action.published? inbox.triggers <;> rfl
    calc delivered id hub (action :: rest) ++ queue'
        = (hub.handed? id action).toList ++ (delivered id (hub.act action) rest ++ queue') :=
          List.append_assoc ..
      _ = (hub.handed? id action).toList ++ (queue ++ published inbox.triggers rest) := by
          rw [hbalance']
      _ = inbox.queue ++ published inbox.triggers (action :: rest) := by
          rw [← List.append_assoc, hbalance, hpublished, List.append_assoc]

/-- **A subscription that is gone** stays so, and is handed nothing. -/
theorem delivered_of_gone (actions : List Action) (h : hub.Consistent)
    (hgone : hub.inbox? id = none) (hold : id < hub.nextId) :
    (hub.after actions).inbox? id = none ∧ delivered id hub actions = [] := by
  induction actions generalizing hub with
  | nil => exact ⟨hgone, rfl⟩
  | cons action rest ih =>
    obtain ⟨hstill, hnothing⟩ :
        (hub.act action).inbox? id = none ∧ hub.handed? id action = none :=
      inbox?_act_of_gone h hgone hold
    -- Numbers only grow, so that the number stays one that has been given.
    have hnext : id < (hub.act action).nextId := by
      rw [nextId_act]
      exact Nat.lt_of_lt_of_le hold (Nat.le_add_right _ _)
    obtain ⟨hinbox, hrest⟩ := ih (h.act action) hstill hnext
    refine ⟨hinbox, ?_⟩
    rw [delivered, hnothing, hrest]
    rfl

/-- A subscription that is dropped is gone after that. -/
theorem inbox?_after_of_dropped {actions : List Action} (h : hub.Consistent)
    (hold : id < hub.nextId) (hdropped : isDropped id actions = true) :
    (hub.after actions).inbox? id = none := by
  induction actions generalizing hub with
  | nil => exact absurd hdropped (by simp [isDropped])
  | cons action rest ih =>
    have hnext : id < (hub.act action).nextId := by
      rw [nextId_act]
      exact Nat.lt_of_lt_of_le hold (Nat.le_add_right _ _)
    cases hfirst : action.drops id with
    | false => exact ih (h.act action) hnext (by simpa [isDropped_cons, hfirst] using hdropped)
    | true =>
      -- This is the action that drops it.
      refine (delivered_of_gone rest (h.act action) ?_ hnext).1
      cases action with
      | drop dropped => rw [← beq_iff_eq.mp hfirst]; exact inbox?_unsubscribe
      | subscribe _ | publish _ _ | poll _ => exact absurd hfirst (by simp [Action.drops])

/-- **The subscriptions after some actions** are those from before and those opened since, without
the ones that have been dropped. The induction is on the actions. Numbers are never given twice, so
a drop takes out the same subscription whether it is filtered out at once or at the end. -/
theorem subscriptions_after (h : hub.Consistent) (actions : List Action) :
    (hub.after actions).subscriptions =
      (hub.subscriptions.filter fun subscription => !isDropped subscription.1 actions) ++
        liveFrom hub.nextId actions := by
  induction actions generalizing hub with
  | nil =>
    have hall : (hub.subscriptions.filter fun subscription => !isDropped subscription.1 []) =
        hub.subscriptions := List.filter_eq_self.mpr fun _ _ => rfl
    rw [hall]
    exact (List.append_nil _).symm
  | cons action rest ih =>
    refine (ih (h.act action)).trans ?_
    have hnext := nextId_act hub action
    cases action with
    -- Opened: the new subscription comes last, and is live if nothing later drops it.
    | subscribe triggers =>
      have hnew : (hub.act (.subscribe triggers)).subscriptions =
          hub.subscriptions ++ [(hub.nextId, triggers)] := List.map_append
      rw [hnext, hnew, List.filter_append, List.append_assoc]
      refine congrArg₂ (· ++ ·) rfl ?_
      change _ ++ liveFrom (hub.nextId + 1) rest = _
      rw [liveFrom]
      cases hdropped : isDropped hub.nextId rest <;> simp [hdropped]
    -- Publishing and polling change queues only.
    | publish trigger payload =>
      have hsame : (hub.act (.publish trigger payload)).subscriptions = hub.subscriptions :=
        subscriptions_modifyInboxes _ fun _ => rfl
      rw [hnext, hsame]
      rfl
    | poll polled =>
      have hsame : (hub.act (.poll polled)).subscriptions = hub.subscriptions := by
        change (hub.poll polled).2.subscriptions = hub.subscriptions
        rcases poll_snd hub polled with hkept | ⟨left, hleft⟩
        · rw [hkept]
        · rw [hleft]
          exact subscriptions_modifyInboxes _ fun _ => rfl
      rw [hnext, hsame]
      rfl
    | drop dropped =>
      -- The two filters, by this drop and by the later ones, are the filter by all of them.
      rw [hnext, act, subscriptions_unsubscribe, List.filter_filter]
      refine congrArg₂ (· ++ ·) (List.filter_congr fun subscription _ => ?_) rfl
      rw [isDropped_cons, Action.drops, Bool.not_or, Bool.and_comm, bne_comm]
      rfl

end Runs

section Histories

variable {actions : List Action}

theorem consistent_after_empty (actions : List Action) : (empty.after actions).Consistent :=
  empty_consistent.after actions

theorem subscriptions_after_empty (actions : List Action) :
    (empty.after actions).subscriptions = live actions := subscriptions_after empty_consistent actions

/-- As many subscriptions listen to a trigger as there are live ones that list it. -/
theorem length_listeners (actions : List Action) (trigger : String) :
    ((empty.after actions).listeners trigger).length = liveCount actions trigger := by
  rw [(consistent_after_empty actions).listeners, liveCount, ← subscriptions_after_empty, listing,
    subscriptions, List.length_map, List.countP_map, List.countP_eq_length_filter]
  rfl

/-- A subscription is opened under the number of the subscriptions before it, with nothing queued.
-/
theorem inbox?_opened (before : List Action) (triggers : List String) :
    (empty.after (before ++ [.subscribe triggers])).inbox? (opened before) = some ⟨triggers, []⟩ := by
  have hnext : (empty.after before).nextId = opened before :=
    (nextId_after empty before).trans (Nat.zero_add _)
  rw [after_append]
  change ((empty.after before).subscribe triggers).2.inbox? _ = _
  rw [inbox?_subscribe (consistent_after_empty before), if_pos hnext.symm]

/-- The number of a subscription is given away when it is opened. -/
theorem opened_lt_nextId (before : List Action) (triggers : List String) :
    opened before < (empty.after (before ++ [.subscribe triggers])).nextId := by
  rw [nextId_after, opened, opened, List.countP_append]
  simp [empty, Action.opens]

/-- Splitting a history at the opening of a subscription. -/
theorem after_split (before later : List Action) (triggers : List String) :
    empty.after (before ++ .subscribe triggers :: later) =
      (empty.after (before ++ [.subscribe triggers])).after later := by
  rw [← after_append, List.append_assoc]
  rfl

end Histories

/-- **Nothing is lost, doubled or reordered**, whatever clients do. -/
theorem isExact (actions : List Action) : IsExact actions where
  number triggers := (nextId_after empty actions).trans (Nat.zero_add _)
  delivery before triggers later hactions hlive := by
    subst hactions
    -- Right after the opening the queue is empty, so that all that balances it are later payloads.
    obtain ⟨queue, hqueue, hbalance⟩ := delivered_queue_after
      (consistent_after_empty (before ++ [.subscribe triggers])) (inbox?_opened before triggers) hlive
    rw [after_split before later triggers, PubSub.queue, hqueue]
    exact hbalance
  -- A poll finds the end exactly if nothing is queued and nobody lists the number any more.
  ending before triggers later hactions hlive := by
    subst hactions
    obtain ⟨queue, hqueue, hbalance⟩ := delivered_queue_after
      (consistent_after_empty (before ++ [.subscribe triggers])) (inbox?_opened before triggers) hlive
    have hconsistent := (consistent_after_empty (before ++ [.subscribe triggers])).after later
    have hlistening := @Consistent.isListening_iff _ (opened before) hconsistent
    -- Whether the subscription still listens is told from the triggers of its inbox.
    simp only [hqueue, Option.some.injEq, exists_eq_left'] at hlistening
    rw [after_split, poll_fst, PubSub.queue, hqueue, idle]
    constructor
    · intro hended
      -- A subscription that lists a trigger would wait for more.
      by_contra hsome
      rw [hlistening.mpr hsome] at hended
      cases queue <;> cases hended
    · intro hnone
      -- Nothing can be published to a subscription that lists no trigger.
      have hnothing : published triggers later = [] := by
        rw [hnone]
        refine List.filterMap_eq_nil_iff.mpr fun action _ => ?_
        cases action <;> simp [Action.published?]
      have hempty : queue = [] := (List.append_eq_nil_iff.mp (hbalance.trans hnothing)).2
      have hsilent : ((empty.after (before ++ [.subscribe triggers])).after later).isListening
          (opened before) = false := by
        rw [Bool.eq_false_iff]
        exact fun hlistens => hlistening.mp hlistens hnone
      rw [hempty, hsilent]
      rfl
  -- The inbox is gone with the drop, and no action brings it back.
  silence before triggers later hactions hdropped := by
    subst hactions
    have hstart := consistent_after_empty (before ++ [.subscribe triggers])
    have hold := opened_lt_nextId before triggers
    have hgone := inbox?_after_of_dropped hstart hold hdropped
    rw [after_split]
    refine ⟨hgone, fun further => (delivered_of_gone further (hstart.after later) hgone ?_).2⟩
    rw [nextId_after]
    exact Nat.lt_of_lt_of_le hold (Nat.le_add_right _ _)
  -- What another subscription finds depends on its own inbox only.
  independence id other hne := by
    have hinbox : ((empty.after actions).unsubscribe id).inbox? other =
        (empty.after actions).inbox? other := inbox?_unsubscribe_of_ne hne
    refine ⟨hinbox, ?_⟩
    have hconsistent := consistent_after_empty actions
    have hlistening : ((empty.after actions).unsubscribe id).isListening other =
        (empty.after actions).isListening other := by
      rw [Bool.eq_iff_iff, hconsistent.isListening_iff, (hconsistent.unsubscribe id).isListening_iff,
        hinbox]
    rw [poll_fst, poll_fst, PubSub.queue, PubSub.queue, idle, idle, hinbox, hlistening]
  reached trigger payload := length_listeners actions trigger
  counted trigger := length_listeners actions trigger
  nonempty := (consistent_after_empty actions).table.nonempty
  -- A trigger in the table would have a listener, which would be live.
  cleared hnobody := by
    refine (consistent_after_empty actions).table.eq_nil fun trigger => ?_
    have hcount := length_listeners actions trigger
    rw [liveCount, hnobody] at hcount
    exact List.eq_nil_of_length_eq_zero hcount

/-- A subscription that lists a trigger twice gets each payload once. -/
example : delivered 0 (empty.after [.subscribe ["a", "a"]])
    [.publish "a" (.plain (.int 1)), .publish "b" .null, .poll 0, .poll 0] = [.plain (.int 1)] := rfl

end PubSub

end GraphQL
