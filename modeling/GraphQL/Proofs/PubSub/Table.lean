import GraphQL.Proofs.Entries
import GraphQL.Proofs.Subscription.Events

/-!
# The table of triggers and the open subscriptions

`PubSub` keeps two records of who listens to what: the subscriptions of every trigger, and the
triggers of every subscription. Whoever publishes goes by the first one, whoever unsubscribes by the
second one, so they must never come apart.

Consistency is preserved by each operation, so it holds of every state that is reached from the
empty one. It is stated as an equation between the two records: those listed under a trigger are the
subscriptions whose inboxes name it, in the order in which they were opened.

* `PubSub.Consistent` — both records say the same, no trigger is kept without a subscription, and no
  number is given twice;
* `PubSub.Consistent.subscribe`, `.publish`, `.poll`, `.unsubscribe` — every operation keeps them
  so;
* `PubSub.inbox?_subscribe`, `.inbox?_publish`, `.inbox?_poll`, `.inbox?_unsubscribe_of_ne` — what
  an operation does to what belongs to one subscription.
-/

namespace GraphQL

namespace PubSub

/-! ### Tables of triggers -/

/-- Every trigger is kept once, and only as long as somebody listens to it. -/
structure IsTable (table : Entries (List Nat)) : Prop where
  nodup : (Entries.keys table).Nodup
  nonempty : ∀ entry ∈ table, entry.2 ≠ []

/-- The subscriptions that a table has for a trigger. -/
def listedUnder (table : Entries (List Nat)) (trigger : String) : List Nat :=
  (Entries.get? table trigger).getD []

section Table

variable {table : Entries (List Nat)} {id : Nat} {trigger : String}

theorem listedUnder_insert_self (ids : List Nat) :
    listedUnder (Entries.insert table trigger ids) trigger = ids := by
  rw [listedUnder, Entries.get?_insert_self]
  rfl

theorem listedUnder_insert_of_ne (ids : List Nat) {other : String} (h : trigger ≠ other) :
    listedUnder (Entries.insert table trigger ids) other = listedUnder table other := by
  rw [listedUnder, Entries.get?_insert_of_ne table ids h, listedUnder]

theorem IsTable.insert {ids : List Nat} (h : IsTable table) (hids : ids ≠ []) :
    IsTable (Entries.insert table trigger ids) where
  nodup := Entries.nodup_keys_insert trigger ids h.nodup
  nonempty entry hmem := by
    rcases Entries.mem_insert hmem with rfl | hmem
    · exact hids
    · exact h.nonempty entry hmem

theorem IsTable.erase (h : IsTable table) : IsTable (Entries.erase table trigger) where
  nodup := Entries.nodup_keys_erase h.nodup
  nonempty entry hmem := h.nonempty entry (Entries.mem_of_mem_erase hmem)

theorem IsTable.listen (h : IsTable table) : IsTable (PubSub.listen table id trigger) := by
  unfold PubSub.listen
  dsimp only
  split
  · exact h
  · exact h.insert (List.append_ne_nil_of_right_ne_nil _ (List.cons_ne_nil id []))

theorem IsTable.unlisten (h : IsTable table) : IsTable (PubSub.unlisten table id trigger) := by
  unfold PubSub.unlisten
  split
  · exact h
  · split
    · exact h.erase
    next hleft => exact h.insert hleft

/-- Listening puts a subscription last under the trigger, unless it is there already. -/
theorem listedUnder_listen (other : String) :
    listedUnder (listen table id trigger) other =
      if other = trigger ∧ id ∉ listedUnder table other then listedUnder table other ++ [id]
      else listedUnder table other := by
  unfold listen
  dsimp only
  by_cases hknown : id ∈ listedUnder table trigger
  -- The subscription is listed already: the table is left alone.
  · have hcontains : ((Entries.get? table trigger).getD []).contains id = true := by
      simpa [listedUnder] using hknown
    rw [if_pos hcontains, if_neg]
    rintro ⟨rfl, hnew⟩
    exact hnew hknown
  · have hcontains : ¬ ((Entries.get? table trigger).getD []).contains id = true := by
      simpa [listedUnder] using hknown
    -- Listed last under the trigger; no other list changes.
    rw [if_neg hcontains]
    by_cases hother : other = trigger
    · subst hother
      rw [if_pos ⟨rfl, hknown⟩, listedUnder_insert_self]
      rfl
    · rw [if_neg fun h => hother h.1, listedUnder_insert_of_ne _ fun h => hother h.symm]

/-- No longer listening takes a subscription out from under the trigger, and leaves every other
trigger as it is. A trigger that nobody listens to any more is not kept, which makes no difference
to who is listed under it. -/
theorem listedUnder_unlisten (h : IsTable table) (other : String) :
    listedUnder (unlisten table id trigger) other =
      if other = trigger then (listedUnder table other).filter (· != id)
      else listedUnder table other := by
  unfold unlisten
  cases hget : Entries.get? table trigger with
  | none =>
    dsimp only
    split
    -- The list is looked up under the trigger itself, or under another one.
    next heq =>
      -- Nobody listens to the trigger, so there is nobody to take out.
      rw [listedUnder, heq, hget]
      rfl
    next => rfl
  | some known =>
    dsimp only
    have hlisted : listedUnder table trigger = known := by rw [listedUnder, hget]; rfl
    cases hleft : known.filter (· != id) with
    -- Nobody is left: the trigger is taken out of the table, under which nothing is found from then
    -- on.
    | nil =>
      dsimp only
      split
      next heq =>
        rw [heq, hlisted, hleft, listedUnder, Entries.get?_erase_self h.nodup]
        rfl
      next hne => rw [listedUnder, Entries.get?_erase_of_ne hne, listedUnder]
    | cons first rest =>
      -- Somebody is left: the shortened list takes the place of the old one.
      dsimp only
      split
      next heq => rw [heq, hlisted, hleft, listedUnder_insert_self]
      next hne => exact listedUnder_insert_of_ne _ fun heq => hne heq.symm

/-- Listening to some triggers, any of them possibly more than once. The induction is on the
triggers; a repeated one finds the subscription there already. -/
theorem listedUnder_foldl_listen (triggers : List String) (table : Entries (List Nat))
    (other : String) :
    listedUnder (triggers.foldl (listen · id) table) other =
      if other ∈ triggers ∧ id ∉ listedUnder table other then listedUnder table other ++ [id]
      else listedUnder table other := by
  induction triggers generalizing table with
  | nil => simp
  | cons trigger rest ih =>
    rw [List.foldl_cons, ih, listedUnder_listen]
    -- Under its own trigger the first step already lists the subscription, so that the others find
    -- it there.
    by_cases hknown : id ∈ listedUnder table other
    · simp [hknown]
    · by_cases htrigger : other = trigger
      · subst htrigger
        simp [hknown]
      · simp [htrigger, hknown]

theorem listedUnder_foldl_unlisten (triggers : List String) (h : IsTable table) (other : String) :
    listedUnder (triggers.foldl (unlisten · id) table) other =
      if other ∈ triggers then (listedUnder table other).filter (· != id)
      else listedUnder table other := by
  induction triggers generalizing table with
  | nil => simp
  | cons trigger rest ih =>
    rw [List.foldl_cons, ih h.unlisten, listedUnder_unlisten h]
    by_cases htrigger : other = trigger
    · simp [htrigger, List.filter_filter]
    · simp [htrigger]

theorem IsTable.foldl_listen (triggers : List String) (h : IsTable table) :
    IsTable (triggers.foldl (PubSub.listen · id) table) := by
  induction triggers generalizing table with
  | nil => exact h
  | cons trigger rest ih => exact ih h.listen

theorem IsTable.foldl_unlisten (triggers : List String) (h : IsTable table) :
    IsTable (triggers.foldl (PubSub.unlisten · id) table) := by
  induction triggers generalizing table with
  | nil => exact h
  | cons trigger rest ih => exact ih h.unlisten

/-- A table that has nobody for any trigger is empty. -/
theorem IsTable.eq_nil (h : IsTable table) (hnobody : ∀ trigger, listedUnder table trigger = []) :
    table = [] := by
  cases table with
  | nil => rfl
  | cons entry rest =>
    have hget : listedUnder (entry :: rest) entry.1 = entry.2 := by
      rw [listedUnder, Entries.get?_of_mem h.nodup List.mem_cons_self]
      rfl
    exact absurd (hget.symm.trans (hnobody entry.1)) (h.nonempty entry List.mem_cons_self)

end Table

/-! ### Open subscriptions -/

/-- The subscriptions that list a trigger, in the order in which they were opened. -/
def listing (inboxes : List (Nat × Inbox)) (trigger : String) : List Nat :=
  (inboxes.filter fun entry => entry.2.triggers.contains trigger).map Prod.fst

/-- The table of triggers says the same as the open subscriptions, each of which has a number of its
own. -/
structure Consistent (hub : PubSub) : Prop where
  table : IsTable hub.byTrigger
  listeners : ∀ trigger, hub.listeners trigger = listing hub.inboxes trigger
  nodup : (hub.inboxes.map Prod.fst).Nodup
  old : ∀ entry ∈ hub.inboxes, entry.1 < hub.nextId

theorem empty_consistent : empty.Consistent where
  table := ⟨List.nodup_nil, by simp [empty]⟩
  listeners _ := rfl
  nodup := List.nodup_nil
  old := by simp [empty]

theorem mem_listing {inboxes : List (Nat × Inbox)} {trigger : String} {id : Nat} :
    id ∈ listing inboxes trigger ↔
      ∃ inbox, (id, inbox) ∈ inboxes ∧ trigger ∈ inbox.triggers := by
  simp [listing]

/-- Who lists a trigger does not depend on what is queued. -/
theorem listing_map {inboxes : List (Nat × Inbox)} {change : Nat × Inbox → Nat × Inbox}
    (hid : ∀ entry, (change entry).1 = entry.1)
    (htriggers : ∀ entry, (change entry).2.triggers = entry.2.triggers) (trigger : String) :
    listing (inboxes.map change) trigger = listing inboxes trigger := by
  induction inboxes with
  | nil => rfl
  | cons entry rest ih =>
    rw [listing, listing] at ih ⊢
    simp only [List.map_cons, List.filter_cons, htriggers]
    split
    · rw [List.map_cons, List.map_cons, hid, ih]
    · exact ih

section Inboxes

variable {hub : PubSub} {id : Nat}

theorem mem_of_inbox? {inbox : Inbox} (h : hub.inbox? id = some inbox) :
    (id, inbox) ∈ hub.inboxes := by
  have hsome := List.lookup_eq_some_iff.mp h
  obtain ⟨before, after, hinboxes, -⟩ := hsome
  rw [hinboxes]
  exact List.mem_append_right before List.mem_cons_self

/-- With distinct numbers, what belongs to a subscription is found under its number. -/
theorem Consistent.inbox?_eq_some_iff (h : hub.Consistent) {inbox : Inbox} :
    hub.inbox? id = some inbox ↔ (id, inbox) ∈ hub.inboxes := by
  refine ⟨mem_of_inbox?, fun hmem => ?_⟩
  have hnodup := h.nodup
  rw [inbox?]
  -- The order of the entries is all that matters from here on, so that the hub can be forgotten.
  generalize hub.inboxes = inboxes at hmem hnodup ⊢
  induction inboxes with
  | nil => exact absurd hmem List.not_mem_nil
  | cons entry rest ih =>
    obtain ⟨hfirst, hrest⟩ := List.nodup_cons.mp hnodup
    rcases List.mem_cons.mp hmem with rfl | hmem
    -- The first entry has the number, and the lookup stops there.
    · exact List.lookup_cons_self
    -- The first entry has another number, as no number is given twice.
    · have hne : (id == entry.1) = false :=
        beq_eq_false_iff_ne.mpr fun heq => hfirst (heq ▸ List.mem_map_of_mem hmem)
      rw [List.lookup_cons, hne]
      exact ih hmem hrest

/-- A subscription listens to the triggers that it lists. -/
theorem Consistent.mem_listeners_iff (h : hub.Consistent) {trigger : String} :
    id ∈ hub.listeners trigger ↔ ∃ inbox, hub.inbox? id = some inbox ∧ trigger ∈ inbox.triggers := by
  rw [h.listeners, mem_listing]
  exact exists_congr fun inbox => and_congr_left' h.inbox?_eq_some_iff.symm

/-- A number is listening exactly if it is that of a subscription which lists something. -/
theorem Consistent.isListening_iff (h : hub.Consistent) :
    hub.isListening id = true ↔ ∃ inbox, hub.inbox? id = some inbox ∧ inbox.triggers ≠ [] := by
  -- Listening is told from the table; the invariant then tells the table from the inboxes.
  have hlistens : hub.isListening id = true ↔ ∃ trigger, id ∈ hub.listeners trigger := by
    rw [isListening, List.any_eq_true]
    constructor
    · rintro ⟨entry, hmem, hid⟩
      refine ⟨entry.1, ?_⟩
      rw [PubSub.listeners, Entries.get?_of_mem h.table.nodup hmem]
      exact List.contains_iff_mem.mp hid
    · rintro ⟨trigger, hid⟩
      rw [PubSub.listeners] at hid
      cases hget : Entries.get? hub.byTrigger trigger with
      | none => rw [hget] at hid; exact absurd hid List.not_mem_nil
      | some ids =>
        rw [hget] at hid
        exact ⟨_, Entries.get?_mem hget, List.contains_iff_mem.mpr hid⟩
  rw [hlistens]
  constructor
  · rintro ⟨trigger, hid⟩
    obtain ⟨inbox, hinbox, htrigger⟩ := h.mem_listeners_iff.mp hid
    exact ⟨inbox, hinbox, List.ne_nil_of_mem htrigger⟩
  · rintro ⟨inbox, hinbox, hsome⟩
    obtain ⟨trigger, htrigger⟩ := List.exists_mem_of_ne_nil _ hsome
    exact ⟨trigger, h.mem_listeners_iff.mpr ⟨inbox, hinbox, htrigger⟩⟩

/-- Changing what belongs to some subscriptions, each by itself. -/
theorem inbox?_modifyInboxes (ids : List Nat) (f : Inbox → Inbox) :
    (hub.modifyInboxes ids f).inbox? id =
      (hub.inbox? id).map fun inbox => if id ∈ ids then f inbox else inbox := by
  rw [inbox?, inbox?, modifyInboxes]
  dsimp only
  generalize hub.inboxes = inboxes
  induction inboxes with
  | nil => rfl
  | cons entry rest ih =>
    obtain ⟨other, inbox⟩ := entry
    rw [List.map_cons, List.lookup_cons, List.lookup_cons]
    -- The key of an entry stays what it is, whether it is changed or not.
    by_cases hother : id = other
    · subst hother
      by_cases hmem : id ∈ ids <;> simp [hmem]
    · have hne : (id == other) = false := beq_eq_false_iff_ne.mpr hother
      have hkey : (if ids.contains other then (other, f inbox) else (other, inbox)).1 = other := by
        split <;> rfl
      simp only [hkey, hne]
      exact ih

/-- Changes of what is queued leave the records of who listens to what as they are. -/
theorem Consistent.modifyInboxes (h : hub.Consistent) (ids : List Nat) {f : Inbox → Inbox}
    (hf : ∀ inbox, (f inbox).triggers = inbox.triggers) : (hub.modifyInboxes ids f).Consistent := by
  -- Neither the number nor the triggers of an entry change, and these are all that the table is
  -- about.
  have hid : ∀ entry : Nat × Inbox,
      (if ids.contains entry.1 then (entry.1, f entry.2) else entry).1 = entry.1 := by
    intro entry
    split <;> rfl
  have htriggers : ∀ entry : Nat × Inbox,
      (if ids.contains entry.1 then (entry.1, f entry.2) else entry).2.triggers =
        entry.2.triggers := by
    intro entry
    split
    · exact hf entry.2
    · rfl
  have hids : (hub.modifyInboxes ids f).inboxes.map Prod.fst = hub.inboxes.map Prod.fst := by
    rw [PubSub.modifyInboxes, List.map_map]
    exact List.map_congr_left fun entry _ => hid entry
  refine ⟨h.table, fun trigger => ?_, hids ▸ h.nodup, fun entry hmem => ?_⟩
  · exact (h.listeners trigger).trans (listing_map hid htriggers trigger).symm
  · obtain ⟨old, hold, rfl⟩ := List.mem_map.mp hmem
    rw [hid]
    exact h.old old hold

end Inboxes

/-! ### Operations -/

section Operations

variable {hub : PubSub} {id : Nat}

/-- **Opening a subscription** adds it under its triggers, each of them once. Its number has not
been given before, so it is listed nowhere yet and comes last wherever it is added, as its inbox
does. -/
theorem Consistent.subscribe (h : hub.Consistent) (triggers : List String) :
    (hub.subscribe triggers).2.Consistent := by
  -- Numbers are given in increasing order, so that no inbox has the new one.
  have hnew : hub.nextId ∉ hub.inboxes.map Prod.fst := by
    intro hmem
    obtain ⟨entry, hentry, heq⟩ := List.mem_map.mp hmem
    exact Nat.lt_irrefl _ (heq ▸ h.old entry hentry)
  refine ⟨h.table.foldl_listen triggers, fun trigger => ?_, ?_, fun entry hmem => ?_⟩
  -- The table lists the new subscription last under each of its triggers, as its inbox is the last
  -- one.
  · have hlisteners : (hub.subscribe triggers).2.listeners trigger =
        listedUnder (triggers.foldl (listen · hub.nextId) hub.byTrigger) trigger := rfl
    have hold : listedUnder hub.byTrigger trigger = listing hub.inboxes trigger :=
      h.listeners trigger
    -- Nobody is listed under a number that has not been given.
    have habsent : hub.nextId ∉ listing hub.inboxes trigger := fun hmem => by
      obtain ⟨inbox, hinbox, -⟩ := mem_listing.mp hmem
      exact hnew (List.mem_map_of_mem hinbox)
    have hnew : listing (hub.subscribe triggers).2.inboxes trigger =
        listing hub.inboxes trigger ++ listing [(hub.nextId, ⟨triggers, []⟩)] trigger := by
      rw [listing, listing, listing, ← List.map_append, ← List.filter_append]
      rfl
    rw [hlisteners, listedUnder_foldl_listen, hold, hnew]
    by_cases htrigger : trigger ∈ triggers
    · rw [if_pos ⟨htrigger, habsent⟩]
      simp [htrigger, listing]
    · simp [htrigger, listing]
  -- The numbers stay distinct.
  · simp only [PubSub.subscribe, List.map_append, List.map_cons, List.map_nil]
    exact List.nodup_append'.mpr ⟨h.nodup, List.nodup_singleton _, by simpa using hnew⟩
  -- Every number is smaller than the next one to give.
  · rcases List.mem_append.mp hmem with hmem | hmem
    · exact Nat.lt_succ_of_lt (h.old entry hmem)
    · rw [List.mem_singleton.mp hmem]
      exact Nat.lt_succ_self _

/-- **Closing a subscription** takes it out from under its triggers and leaves the others there. -/
theorem Consistent.unsubscribe (h : hub.Consistent) (id : Nat) :
    (hub.unsubscribe id).Consistent := by
  rw [PubSub.unsubscribe]
  cases hinbox : hub.inbox? id with
  | none => exact h
  | some inbox =>
    refine ⟨h.table.foldl_unlisten inbox.triggers, fun trigger => ?_, ?_, fun entry hmem => ?_⟩
    · have hold : listedUnder hub.byTrigger trigger = listing hub.inboxes trigger :=
        h.listeners trigger
      have hleft : listing (hub.inboxes.filter fun entry => entry.1 != id) trigger =
          (listing hub.inboxes trigger).filter (· != id) := by
        rw [listing, listing, List.filter_map, List.filter_filter, List.filter_filter]
        exact congrArg _ (List.filter_congr fun entry _ => Bool.and_comm _ _)
      change listedUnder (inbox.triggers.foldl (unlisten · id) hub.byTrigger) trigger = _
      rw [listedUnder_foldl_unlisten _ h.table, hold, hleft]
      split
      · rfl
      next hother =>
        -- The subscription does not list the trigger, so it is not there to be taken out.
        refine (List.filter_eq_self.mpr fun other hmem => bne_iff_ne.mpr ?_).symm
        rintro rfl
        obtain ⟨found, hfound, htrigger⟩ := mem_listing.mp hmem
        have hsame := hinbox.symm.trans (h.inbox?_eq_some_iff.mpr hfound)
        exact hother (Option.some.inj hsame ▸ htrigger)
    · exact h.nodup.sublist (List.filter_sublist.map Prod.fst)
    · exact h.old entry (List.mem_of_mem_filter hmem)

theorem Consistent.publish (h : hub.Consistent) (trigger : String) (payload : FieldValue) :
    (hub.publish trigger payload).2.Consistent :=
  h.modifyInboxes (hub.listeners trigger) (f := fun inbox =>
    { inbox with queue := inbox.queue ++ [payload] }) fun _ => rfl

/-- What is left in a queue changes nothing of who listens to what. -/
theorem Consistent.leave (h : hub.Consistent) (id : Nat) (left : List FieldValue) :
    (hub.leave id left).Consistent :=
  h.modifyInboxes [id] (f := fun inbox => { inbox with queue := left }) fun _ => rfl

/-- A poll takes the oldest payload, if there is one, and leaves the others. -/
theorem poll_of_cons {payload : FieldValue} {left : List FieldValue} (h : hub.queue id = payload :: left) :
    hub.poll id = (.ready payload, hub.leave id left) := by
  simp only [poll, h]

/-- If there is none, everything stays as it is. -/
theorem poll_of_nil (h : hub.queue id = []) : hub.poll id = (hub.idle id, hub) := by
  simp only [poll, h]

/-- A poll changes the hub in what is queued for the subscription, if at all. -/
theorem poll_snd (hub : PubSub) (id : Nat) :
    (hub.poll id).2 = hub ∨ ∃ left, (hub.poll id).2 = hub.leave id left := by
  cases hqueue : hub.queue id with
  | nil => exact .inl (congrArg Prod.snd (poll_of_nil hqueue))
  | cons payload left => exact .inr ⟨left, congrArg Prod.snd (poll_of_cons hqueue)⟩

/-- What a poll finds: the oldest payload, if there is one. -/
theorem poll_fst (hub : PubSub) (id : Nat) :
    (hub.poll id).1 =
      match hub.queue id with
      | payload :: _ => .ready payload
      | [] => hub.idle id := by
  rw [poll]
  cases hub.queue id <;> rfl

theorem item?_poll (hub : PubSub) (id : Nat) : (hub.poll id).1.item? = (hub.queue id).head? := by
  rw [poll_fst]
  cases hub.queue id with
  | nil =>
    dsimp only [idle]
    cases hub.isListening id <;> rfl
  | cons payload left => rfl

theorem Consistent.poll (h : hub.Consistent) (id : Nat) : (hub.poll id).2.Consistent := by
  rcases poll_snd hub id with hsame | ⟨left, hleft⟩
  · rwa [hsame]
  · rw [hleft]
    exact h.leave id left

/-- A new subscription has nothing queued, and the others keep what they have. -/
theorem inbox?_subscribe (h : hub.Consistent) (triggers : List String) :
    (hub.subscribe triggers).2.inbox? id =
      if id = hub.nextId then some ⟨triggers, []⟩ else hub.inbox? id := by
  have hinboxes : (hub.subscribe triggers).2.inboxes =
    hub.inboxes ++ [(hub.nextId, ⟨triggers, []⟩)] := rfl
  rw [inbox?, hinboxes, List.lookup_append]
  split
  next heq =>
    subst heq
    -- No inbox has the number that is given next.
    have hnone : hub.inboxes.lookup hub.nextId = none := by
      cases hlookup : hub.inbox? hub.nextId with
      | none => exact hlookup
      | some inbox => exact absurd (h.old _ (mem_of_inbox? hlookup)) (Nat.lt_irrefl _)
    rw [hnone, List.lookup_cons_self]
    rfl
  next hne =>
    rw [List.lookup_cons, beq_eq_false_iff_ne.mpr hne]
    exact Option.or_none

/-- A payload is queued last for the subscriptions that list its trigger. -/
theorem inbox?_publish (h : hub.Consistent) (trigger : String) (payload : FieldValue) :
    (hub.publish trigger payload).2.inbox? id =
      (hub.inbox? id).map fun inbox =>
        if trigger ∈ inbox.triggers then { inbox with queue := inbox.queue ++ [payload] }
        else inbox := by
  rw [publish]
  dsimp only
  rw [inbox?_modifyInboxes]
  cases hinbox : hub.inbox? id with
  | none => rfl
  | some inbox =>
    -- To be listed under the trigger is to have it among the triggers.
    have hlists : id ∈ hub.listeners trigger ↔ trigger ∈ inbox.triggers := by
      rw [h.mem_listeners_iff, hinbox]
      simp
    simp only [Option.map_some, hlists]

/-- A poll takes the oldest payload of the subscription, and nothing of any other one. Where there
is no payload the state is not changed at all, which is the same as taking nothing from an empty
queue. -/
theorem inbox?_poll (hub : PubSub) (polled : Nat) :
    (hub.poll polled).2.inbox? id =
      (hub.inbox? id).map fun inbox =>
        if id = polled then { inbox with queue := inbox.queue.tail } else inbox := by
  -- What the subscription has queued is what its inbox holds.
  have hself (inbox : Inbox) (h : hub.inbox? id = some inbox) : hub.queue id = inbox.queue := by
    rw [queue, h]
    rfl
  cases hqueue : hub.queue polled with
  | nil =>
    -- Nothing was queued: a poll changes nothing.
    rw [poll_of_nil hqueue]
    cases hinbox : hub.inbox? id with
    | none => rfl
    | some inbox =>
      rw [Option.map_some]
      split
      next heq =>
        subst heq
        rw [hself inbox hinbox] at hqueue
        obtain ⟨triggers, _⟩ := inbox
        obtain rfl := hqueue
        rfl
      next => rfl
  | cons payload left =>
    -- The first payload is taken out of the one inbox.
    rw [poll_of_cons hqueue]
    refine (inbox?_modifyInboxes [polled] _).trans ?_
    cases hinbox : hub.inbox? id with
    | none => rfl
    | some inbox =>
      simp only [Option.map_some, List.mem_singleton]
      split
      next heq =>
        subst heq
        rw [← hself inbox hinbox, hqueue]
        rfl
      next => rfl

/-- Closing a subscription leaves to the others what belongs to them. -/
theorem inbox?_unsubscribe_of_ne {closed : Nat} (h : id ≠ closed) :
    (hub.unsubscribe closed).inbox? id = hub.inbox? id := by
  rw [unsubscribe]
  cases hub.inbox? closed with
  | none => rfl
  | some inbox =>
    rw [inbox?, inbox?]
    dsimp only
    generalize hub.inboxes = inboxes
    induction inboxes with
    | nil => rfl
    | cons entry rest ih =>
      rw [List.filter_cons, List.lookup_cons]
      split
      next => rw [List.lookup_cons, ih]
      next hclosed =>
        -- The entry that is taken out is not the one that is looked for.
        have heq : entry.1 = closed := by simpa using hclosed
        rw [beq_eq_false_iff_ne.mpr (heq ▸ h)]
        exact ih

end Operations

end PubSub

end GraphQL
