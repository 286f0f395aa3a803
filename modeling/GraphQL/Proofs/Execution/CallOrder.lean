import GraphQL.Proofs.Execution.CriticalPath
import GraphQL.Proofs.Execution.DocumentOrder
import GraphQL.Proofs.Execution.Schedules
import GraphQL.Proofs.Execution.SettledCalls
import Mathlib.Data.List.Flatten

/-!
# Calls in document order

The resolvers of an operation are called along its completion tree: each field once, a field before
the fields inside of it, and the fields of one object in the order in which they are collected, in one
visit where they run side by side. How long the resolvers take decides only in which visit an object is
reached.

The idea is to compare three lists of places. The *settlements* of the context are the calls that its
completion tree holds, gone through depth first, each with the number of visits that its resolver takes;
that they are in document order is read off the tree alone (`pairwise_settlements`). The *schedule* deals
the settlements out to visits, so that flattened it is a permutation of them, and what two fields of one
object do is in one visit of it (`siblings_scheduled`). The *calls* of a run, at last, follow the
schedule, whole or up to where the run breaks off. Uniqueness and the order of siblings hold for the
schedule and are therefore inherited by every initial part of it; and where no resolver takes any visit,
the schedule is the list of settlements itself, so that the calls are in depth-first order as well.

* `CompletionTree.IsBefore` — the order in which a tree is gone through depth first;
* `Mirrors.isBefore_settlements` — the settlements of a tree are in that order;
* `Mirrors.siblings` — what the fields of one object do is in one visit of the schedule;
* `calls_in_document_order` — the calls of every run of an operation.
-/

open scoped List

namespace GraphQL

/-! ### Depth first -/

namespace CompletionTree

/-- The first path comes before the second one where a tree is gone through depth first: it leads to a
place around the second one, or to an earlier place. -/
def IsBefore (tree : CompletionTree) (p q : ErrorPath) : Prop :=
  p ≠ q ∧ (p <+: q ∨ tree.Precedes p q)

variable {shape : Shape} {places : List (Place CompletionTree)} {first second : Place CompletionTree}
  {p q : ErrorPath}

theorem IsBefore.inside {place : Place CompletionTree} (hmem : place ∈ places)
    (h : place.tree.IsBefore p q) :
    (branch shape places).IsBefore (place.segment :: p) (place.segment :: q) := by
  refine ⟨fun heq => h.1 (List.cons.inj heq).2, h.2.imp (fun hinit => ?_) (.inside hmem)⟩
  exact List.prefix_cons_inj place.segment |>.mpr hinit

theorem IsBefore.around (segment : PathSegment) (tree : CompletionTree) (hq : q ≠ []) :
    tree.IsBefore [segment] (segment :: q) :=
  ⟨fun heq => hq (List.cons.inj heq).2.symm, .inl ⟨q, rfl⟩⟩

theorem IsBefore.parted (hnodup : (places.map Place.segment).Nodup)
    (h : [first, second] <+ places) :
    (branch shape places).IsBefore (first.segment :: p) (second.segment :: q) :=
  ⟨fun heq => segment_ne_of_sublist hnodup h (List.cons.inj heq).1, .inr (.parted p q h)⟩

/-- The first path comes before the second one, in the tree of the place at the given path. -/
def IsBeforeFrom (base : ErrorPath) (tree : CompletionTree) (first second : ErrorPath) : Prop :=
  ∃ p q, first = base ++ p ∧ second = base ++ q ∧ tree.IsBefore p q

end CompletionTree

open CompletionTree

variable {ctx : ExecutionContext} {base : ErrorPath}

/-- The fields that are collected for an object are those of its tree. -/
theorem ExecutionContext.IsSelection.segments {place : ErrorPath} {groups : FieldGroups}
    {shape : Shape} {places : List (Place CompletionTree)}
    (h : ctx.IsSelection place groups (.branch shape places)) :
    places.map Place.segment = (Entries.keys groups).map .field ∧ (Entries.keys groups).Nodup := by
  obtain ⟨grow, object, value, path, selectionSets, -, rfl, htree⟩ := h
  obtain ⟨-, rfl⟩ := CompletionTree.branch.inj htree
  refine ⟨?_, (ctx.collectFields_grouped object selectionSets).nodup⟩
  rw [Entries.keys, List.map_map, List.map_map]
  exact List.map_congr_left fun group _ => ctx.fieldPlace_segment ..

/-! ### The places of settlements -/

/-- The places of the resolvers inside of a place. -/
def SettlementTree.callPlaces (tree : SettlementTree) : List ErrorPath :=
  tree.settlements.map Settlement.place

namespace Member

/-- The places of the resolvers at and inside of a member. -/
def callPlaces (member : Member SettlementTree) : List ErrorPath :=
  member.settlements.map Settlement.place

/-- The place of the resolver of a member itself. -/
def ownPlaces (member : Member SettlementTree) : List ErrorPath :=
  member.settlement.toList.map Settlement.place

theorem callPlaces_eq (member : Member SettlementTree) :
    member.callPlaces = member.ownPlaces ++ member.inner.callPlaces :=
  List.map_append

/-- The resolver of a member is called in its first visit. -/
theorem ownPlaces_sublist_first (member : Member SettlementTree) :
    member.ownPlaces <+ member.schedule.first := by
  rcases member with ⟨_ | settlement, inner⟩
  · exact List.nil_sublist _
  · exact Schedule.first_sublist_andThen _ _ (List.cons_ne_nil _ _)

theorem ownPlaces_sublist_flatten (member : Member SettlementTree) :
    member.ownPlaces <+ member.schedule.flatten := by
  rw [flatten_schedule]
  exact List.sublist_append_left _ _

end Member

theorem SettlementTree.callPlaces_node (members : List (Member SettlementTree)) :
    (node members).callPlaces = members.flatMap Member.callPlaces := by
  rw [callPlaces, settlements, settlementsAmong_eq_flatMap, List.map_flatMap]
  rfl

namespace Member.Mirrors

variable {member : Member SettlementTree} {place : Place CompletionTree}

/-- A member has no call of its own but that of its place. -/
theorem eq_of_mem_ownPlaces (h : member.Mirrors ctx base place) {path : ErrorPath}
    (hmem : path ∈ member.ownPlaces) : path = base ++ [place.segment] := by
  obtain ⟨settlement, hsettlement, rfl⟩ := List.mem_map.mp hmem
  exact h.located settlement (Option.mem_toList.mp hsettlement)

end Member.Mirrors

/-- What is called inside of a place is further down. -/
theorem SettlementTree.Mirrors.exists_rest {settled : SettlementTree} {tree : CompletionTree}
    (h : settled.Mirrors ctx base tree) {path : ErrorPath} (hmem : path ∈ settled.callPlaces) :
    ∃ segment rest, path = base ++ segment :: rest := by
  induction h with
  | leaf _ => exact absurd hmem List.not_mem_nil
  | @branch base shape pairs hselected hcall hlocated hinner ih =>
    rw [callPlaces_node, List.flatMap_map] at hmem
    obtain ⟨pair, hpair, hmem⟩ := List.mem_flatMap.mp hmem
    rw [Member.callPlaces_eq] at hmem
    -- A place of the member is its own call, one segment down, or a call further inside.
    rcases List.mem_append.mp hmem with hown | hinside
    · have hmirrors : pair.1.Mirrors ctx base pair.2 :=
        ⟨hcall pair hpair, hlocated pair hpair, hinner pair hpair⟩
      exact ⟨pair.2.segment, [], hmirrors.eq_of_mem_ownPlaces hown⟩
    · obtain ⟨segment, rest, rfl⟩ := ih pair hpair hinside
      exact ⟨pair.2.segment, segment :: rest, by rw [List.append_assoc, List.singleton_append]⟩

namespace Member.Mirrors

variable {member : Member SettlementTree} {place : Place CompletionTree}

/-- What is called inside of a member is further down than the member. -/
theorem exists_rest_inner (h : member.Mirrors ctx base place) {path : ErrorPath}
    (hmem : path ∈ member.inner.callPlaces) :
    ∃ next rest, path = base ++ place.segment :: next :: rest := by
  obtain ⟨next, rest, rfl⟩ := h.inner.exists_rest hmem
  exact ⟨next, rest, by rw [List.append_assoc, List.singleton_append]⟩

theorem exists_rest (h : member.Mirrors ctx base place) {path : ErrorPath}
    (hmem : path ∈ member.callPlaces) : ∃ rest, path = base ++ place.segment :: rest := by
  rw [callPlaces_eq] at hmem
  rcases List.mem_append.mp hmem with hown | hinside
  · exact ⟨[], h.eq_of_mem_ownPlaces hown⟩
  · obtain ⟨next, rest, rfl⟩ := h.exists_rest_inner hinside
    exact ⟨next :: rest, rfl⟩

/-- At the place of a member itself is only its own call. -/
theorem mem_ownPlaces (h : member.Mirrors ctx base place) {segment : PathSegment}
    (hmem : base ++ [segment] ∈ member.callPlaces) :
    place.segment = segment ∧ base ++ [segment] ∈ member.ownPlaces := by
  rw [callPlaces_eq] at hmem
  rcases List.mem_append.mp hmem with hown | hinside
  · have hpath := List.append_cancel_left (h.eq_of_mem_ownPlaces hown)
    exact ⟨(List.cons.inj hpath).1.symm, hown⟩
  · obtain ⟨next, rest, hpath⟩ := h.exists_rest_inner hinside
    exact absurd (List.append_cancel_left hpath) (by simp)

/-- Further down than a member are only the calls inside of it. -/
theorem mem_inner (h : member.Mirrors ctx base place) {segment : PathSegment} {rest : ErrorPath}
    (hmem : base ++ segment :: rest ∈ member.callPlaces) (hrest : rest ≠ []) :
    place.segment = segment ∧ base ++ segment :: rest ∈ member.inner.callPlaces := by
  rw [callPlaces_eq] at hmem
  rcases List.mem_append.mp hmem with hown | hinside
  · have hpath := List.append_cancel_left (h.eq_of_mem_ownPlaces hown)
    exact absurd (List.cons.inj hpath).2 hrest
  · obtain ⟨next, rest', hpath⟩ := h.exists_rest_inner hinside
    exact ⟨(List.cons.inj (List.append_cancel_left hpath)).1.symm, hinside⟩

end Member.Mirrors

/-! ### The order of settlements -/

section Pairs

variable {pairs : List (Member SettlementTree × Place CompletionTree)}
  (hmirrors : ∀ pair ∈ pairs, pair.1.Mirrors ctx base pair.2)
include hmirrors

/-- **Members are in the order of their places**, and each is called before what is inside of it.
Inside of one member the order is that of its tree, with its own call in front; between two members
it is decided by their segments, which are the first at which the paths part. -/
theorem isBefore_among {shape : Shape} {places : List (Place CompletionTree)}
    (hplaces : pairs.map Prod.snd <+ places) (hnodup : (places.map Place.segment).Nodup)
    (hinner : ∀ pair ∈ pairs,
      pair.1.inner.callPlaces.Pairwise (IsBeforeFrom (base ++ [pair.2.segment]) pair.2.tree)) :
    (pairs.flatMap fun pair => pair.1.callPlaces).Pairwise
      (IsBeforeFrom base (.branch shape places)) := by
  refine List.pairwise_flatMap.mpr ⟨fun pair hmem => ?_, ?_⟩
  · have hpair := hmirrors pair hmem
    have hplace : pair.2 ∈ places := hplaces.subset (List.mem_map_of_mem hmem)
    rw [Member.callPlaces_eq, List.pairwise_append]
    -- Inside of one member: its own call comes first, and the others are ordered among themselves.
    refine ⟨?_, (hinner pair hmem).imp ?_, fun own hown path hpath => ?_⟩
    -- A member makes at most one call of its own.
    · rw [Member.ownPlaces]
      cases pair.1.settlement with
      | none => exact .nil
      | some settlement => exact List.pairwise_singleton _ _
    -- The order inside of the member is the order of the subtree that its place holds.
    · rintro _ _ ⟨p, q, rfl, rfl, hbefore⟩
      exact ⟨_, _, by rw [List.append_assoc, List.singleton_append],
        by rw [List.append_assoc, List.singleton_append], hbefore.inside hplace⟩
    -- The own call is at a proper initial part of every path inside.
    · obtain rfl := hpair.eq_of_mem_ownPlaces hown
      obtain ⟨next, rest, rfl⟩ := hpair.exists_rest_inner hpath
      exact ⟨_, _, rfl, rfl, .around _ _ (List.cons_ne_nil next rest)⟩
  -- Of two members the paths part at their own segments, and these are in the order of the places.
  · refine List.pairwise_iff_forall_sublist.mpr fun {first second} hpair path hpath path' hpath' => ?_
    obtain ⟨rest, rfl⟩ := (hmirrors first (hpair.subset (by simp))).exists_rest hpath
    obtain ⟨rest', rfl⟩ := (hmirrors second (hpair.subset (by simp))).exists_rest hpath'
    exact ⟨_, _, rfl, rfl, .parted hnodup ((hpair.map Prod.snd).trans hplaces)⟩

/-- What is called directly below a place is called by a member itself. -/
theorem exists_own {segment : PathSegment}
    (hmem : base ++ [segment] ∈ pairs.flatMap fun pair => pair.1.callPlaces) :
    ∃ pair ∈ pairs, pair.2.segment = segment ∧ base ++ [segment] ∈ pair.1.ownPlaces := by
  obtain ⟨pair, hpair, hmem⟩ := List.mem_flatMap.mp hmem
  exact ⟨pair, hpair, (hmirrors pair hpair).mem_ownPlaces hmem⟩

/-- What is called further down is called inside of a member. -/
theorem exists_inside {segment : PathSegment} {rest : ErrorPath} (hrest : rest ≠ [])
    (hmem : base ++ segment :: rest ∈ pairs.flatMap fun pair => pair.1.callPlaces) :
    ∃ pair ∈ pairs, pair.2.segment = segment ∧
      base ++ [segment] ++ rest ∈ pair.1.inner.callPlaces := by
  obtain ⟨pair, hpair, hmem⟩ := List.mem_flatMap.mp hmem
  obtain ⟨hsegment, hinside⟩ := (hmirrors pair hpair).mem_inner hmem hrest
  exact ⟨pair, hpair, hsegment, by rw [List.append_assoc, List.singleton_append]; exact hinside⟩

/-- **Fields of one object** of which both are called are called in the order in which they are
collected. A call at the place of a field can only be the own call of the member with that key, so
that the order of the calls is the order of the members. -/
theorem siblings_among {keys : List String} (hnodup : keys.Nodup)
    (hkeys : (pairs.map fun pair => pair.2.segment) <+: keys.map .field) {key key' : String}
    (hkey : base ++ [PathSegment.field key] ∈ pairs.flatMap fun pair => pair.1.callPlaces)
    (hkey' : base ++ [PathSegment.field key'] ∈ pairs.flatMap fun pair => pair.1.callPlaces) :
    key ∈ keys ∧ key' ∈ keys ∧ ([key, key'] <+ keys →
      [base ++ [PathSegment.field key], base ++ [PathSegment.field key']] <+
        pairs.flatMap fun pair => pair.1.ownPlaces) := by
  have hinjective : Function.Injective PathSegment.field := fun _ _ h => PathSegment.field.inj h
  have hsegments : (pairs.map fun pair => pair.2.segment).Nodup :=
    (hnodup.map hinjective).sublist hkeys.sublist
  have hcollected : ∀ pair ∈ pairs, ∀ name, pair.2.segment = .field name → name ∈ keys := by
    intro pair hpair name hname
    have hmem := hkeys.subset (List.mem_map_of_mem hpair)
    rw [hname] at hmem
    exact (List.mem_map_of_injective hinjective).mp hmem
  -- The only member at such a place is the one whose segment is the key.
  obtain ⟨first, hfirst, hsegment, hown⟩ := exists_own hmirrors hkey
  obtain ⟨second, hsecond, hsegment', hown'⟩ := exists_own hmirrors hkey'
  refine ⟨hcollected first hfirst key hsegment, hcollected second hsecond key' hsegment', fun h => ?_⟩
  -- The two members are in the order of their keys.
  have hpair : [first, second] <+ pairs := by
    have hmem : PathSegment.field key' ∈ pairs.map fun pair => pair.2.segment :=
      hsegment' ▸ List.mem_map_of_mem hsecond
    have hsub : [.field key, .field key'] <+ pairs.map fun pair => pair.2.segment :=
      pair_sublist_of_initial (hnodup.map hinjective) hkeys (h.map PathSegment.field) hmem
    obtain ⟨found, hfound, hsegments'⟩ := List.sublist_map_iff.mp hsub
    obtain ⟨a, b, rfl⟩ : ∃ a b, found = [a, b] := by
      have hlength := congrArg List.length hsegments'
      simp only [List.length_cons, List.length_nil, List.length_map] at hlength
      exact List.length_eq_two.mp hlength.symm
    simp only [List.map_cons, List.map_nil, List.cons.injEq, and_true] at hsegments'
    have ha : a = first := List.inj_on_of_nodup_map hsegments (hfound.subset (by simp)) hfirst
      (hsegments'.1.symm.trans hsegment.symm)
    have hb : b = second := List.inj_on_of_nodup_map hsegments (hfound.subset (by simp)) hsecond
      (hsegments'.2.symm.trans hsegment'.symm)
    rw [← ha, ← hb]
    exact hfound
  have hboth : [base ++ [PathSegment.field key], base ++ [PathSegment.field key']] <+
      [first, second].flatMap fun pair => pair.1.ownPlaces := by
    have hjoined := (List.singleton_sublist.mpr hown).append (List.singleton_sublist.mpr hown')
    simpa using hjoined
  exact hboth.trans (hpair.flatMap _)

end Pairs

/-- The calls of members themselves are in the first visit if the members run side by side. -/
theorem ownPlaces_sublist_together (pairs : List (Member SettlementTree × Place CompletionTree)) :
    (pairs.flatMap fun pair => pair.1.ownPlaces) <+
      (Schedule.together ((pairs.map Prod.fst).map Member.schedule)).first := by
  rw [Schedule.first_together, List.flatMap_map, List.flatMap_map]
  exact List.Sublist.flatMap_right _ fun pair _ => pair.1.ownPlaces_sublist_first

/-- The calls of members themselves are in their order if the members run one after the other. -/
theorem ownPlaces_sublist_inTurn (pairs : List (Member SettlementTree × Place CompletionTree)) :
    (pairs.flatMap fun pair => pair.1.ownPlaces) <+
      (Schedule.inTurn ((pairs.map Prod.fst).map Member.schedule)).flatten := by
  rw [Schedule.flatten_inTurn, List.flatMap_map, List.flatMap_map]
  exact List.Sublist.flatMap_right _ fun pair _ => pair.1.ownPlaces_sublist_flatten

/-- The tree of every place of a branch is grown further down. -/
theorem CompletionTree.Grown.of_mem {shape : Shape} {places : List (Place CompletionTree)}
    {place : Place CompletionTree} (h : Grown base (.branch shape places)) (hmem : place ∈ places) :
    Grown (base ++ [place.segment]) place.tree :=
  h.child (h.child?_of_mem hmem)

namespace SettlementTree.Mirrors

variable {settled : SettlementTree} {tree : CompletionTree}

/-- **The settlements of a tree are in document order.** -/
theorem pairwise_callPlaces (h : settled.Mirrors ctx base tree) (hgrown : Grown base tree) :
    settled.callPlaces.Pairwise (IsBeforeFrom base tree) := by
  induction h with
  | leaf _ => exact .nil
  | @branch base shape pairs hselected hcall hlocated hinner ih =>
    rw [callPlaces_node, List.flatMap_map]
    have hmirrors : ∀ pair ∈ pairs, pair.1.Mirrors ctx base pair.2 := fun pair hmem =>
      ⟨hcall pair hmem, hlocated pair hmem, hinner pair hmem⟩
    exact isBefore_among hmirrors (.refl _) (nodup_segments hgrown) fun pair hmem =>
      ih pair hmem (hgrown.of_mem (List.mem_map_of_mem hmem))

/-- **Fields of one object are called in one visit** of the schedule, in the order in which they are
collected. The induction is on the path of the object. -/
theorem siblings (h : settled.Mirrors ctx base tree) (hgrown : Grown base tree) {rest : ErrorPath}
    {key key' : String} (hkey : base ++ rest ++ [PathSegment.field key] ∈ settled.callPlaces)
    (hkey' : base ++ rest ++ [PathSegment.field key'] ∈ settled.callPlaces) :
    ∃ groups inner, tree.subtree? rest = some inner ∧ ctx.IsSelection (base ++ rest) groups inner ∧
      key ∈ Entries.keys groups ∧ key' ∈ Entries.keys groups ∧
      ([key, key'] <+ Entries.keys groups → ∃ visit ∈ settled.schedule,
        [base ++ rest ++ [PathSegment.field key], base ++ rest ++ [PathSegment.field key']] <+ visit) := by
  induction rest generalizing base settled tree with
  | nil =>
    -- The object is this one: its fields are the members of the node.
    rw [List.append_nil] at hkey hkey' ⊢
    cases h with
    | leaf _ => exact absurd hkey List.not_mem_nil
    | @branch _ shape pairs hselected hcall hlocated hinner =>
      have hmirrors : ∀ pair ∈ pairs, pair.1.Mirrors ctx base pair.2 := fun pair hmem =>
        ⟨hcall pair hmem, hlocated pair hmem, hinner pair hmem⟩
      rw [callPlaces_node, List.flatMap_map] at hkey hkey'
      obtain rfl : shape = .object := by
        -- The segments of a list are no keys.
        cases shape with
        | object => rfl
        | list =>
          obtain ⟨pair, hpair, hsegment, -⟩ := exists_own hmirrors hkey
          cases hgrown with
          | branch hfits _ _ =>
            have hmem : pair.2.segment ∈ (pairs.map Prod.snd).map Place.segment :=
              List.mem_map_of_mem (List.mem_map_of_mem hpair)
            rw [hfits, hsegment] at hmem
            obtain ⟨i, -, hindex⟩ := List.mem_map.mp hmem
            exact nomatch hindex
      obtain ⟨groups, hselection⟩ := hselected rfl
      obtain ⟨hsegments, hnodup⟩ := hselection.segments
      rw [List.map_map] at hsegments
      obtain ⟨hmem, hmem', hpair⟩ :=
        siblings_among hmirrors hnodup (hsegments ▸ List.prefix_rfl) hkey hkey'
      refine ⟨groups, _, rfl, hselection, hmem, hmem', fun horder => ?_⟩
      -- The first visit of the node makes the own calls of all members together.
      rw [schedule_node]
      exact ⟨_, Schedule.first_mem (Schedule.together_ne_nil _),
        (hpair horder).trans (ownPlaces_sublist_together pairs)⟩
  | cons segment rest ih =>
    -- The object is further down. Both paths lead through the same member, and the induction
    -- hypothesis speaks of that member's settlement.
    cases h with
    | leaf _ => exact absurd hkey List.not_mem_nil
    | @branch _ shape pairs hselected hcall hlocated hinner =>
      have hmirrors : ∀ pair ∈ pairs, pair.1.Mirrors ctx base pair.2 := fun pair hmem =>
        ⟨hcall pair hmem, hlocated pair hmem, hinner pair hmem⟩
      rw [callPlaces_node, List.flatMap_map] at hkey hkey'
      simp only [List.append_assoc, List.cons_append] at hkey hkey'
      obtain ⟨pair, hpair, rfl, hinside⟩ := exists_inside hmirrors (by simp) hkey
      obtain ⟨other, hother, hsame, hinside'⟩ := exists_inside hmirrors (by simp) hkey'
      have hplace : pair.2 ∈ pairs.map Prod.snd := List.mem_map_of_mem hpair
      -- A segment belongs to one member only.
      have hnodup : (pairs.map fun pair => pair.2.segment).Nodup := by
        have hsegments := nodup_segments hgrown
        rw [List.map_map] at hsegments
        exact hsegments
      obtain rfl : other = pair := List.inj_on_of_nodup_map hnodup hother hpair hsame
      rw [← List.append_assoc] at hinside hinside'
      obtain ⟨groups, inner, hsubtree, hselection, hmem, hmem', hvisit⟩ :=
        ih (hinner other hpair) (hgrown.of_mem hplace) hinside hinside'
      have hbase : base ++ [other.2.segment] ++ rest = base ++ other.2.segment :: rest := by
        rw [List.append_assoc, List.singleton_append]
      rw [hbase] at hselection hvisit
      refine ⟨groups, inner, ?_, hselection, hmem, hmem', fun horder => ?_⟩
      · rw [subtree?_cons (hgrown.child?_of_mem hplace), hsubtree]
      -- What the member does in one visit is part of one visit of the whole node.
      · obtain ⟨visit, hvisit, hsub⟩ := hvisit horder
        have hwithin : Schedule.Within other.1.inner.schedule
            (SettlementTree.node (pairs.map Prod.fst)).schedule := by
          rw [schedule_node]
          exact other.1.within_schedule.trans
            (.together (List.mem_map_of_mem (List.mem_map_of_mem hpair)))
        obtain ⟨whole, hwhole, hsub'⟩ := hwithin visit hvisit
        exact ⟨whole, hwhole, hsub.trans hsub'⟩

end SettlementTree.Mirrors

/-! ### Operations -/

namespace ExecutionContext

/-- The settlements of an operation, as those of its root fields. -/
theorem map_place_settlements {reached : List (Member SettlementTree × Place CompletionTree)}
    (hmembers : ctx.rootMembers = reached.map Prod.fst) :
    ctx.settlements.map Settlement.place = reached.flatMap fun field => field.1.callPlaces := by
  rw [settlements, hmembers, List.map_flatMap, List.flatMap_map]
  rfl

/-- Every visit inside of a root field is part of a visit of the operation. -/
theorem within_schedule {member : Member SettlementTree} (hmem : member ∈ ctx.rootMembers) :
    member.inner.schedule.Within ctx.schedule := by
  refine member.within_schedule.trans ?_
  rw [schedule]
  split
  · exact .inTurn (List.mem_map_of_mem hmem)
  · exact .together (List.mem_map_of_mem hmem)

/-- **The settlements of an operation are in document order.** -/
theorem pairwise_settlements (ctx : ExecutionContext) :
    (ctx.settlements.map Settlement.place).Pairwise ctx.tree.IsBefore := by
  cases hroot : ctx.rootType? with
  | none =>
    rw [settlements, rootMembers, hroot]
    exact .nil
  | some root =>
    obtain ⟨fields, reached, hinitial, hfields, -, htree, hmembers, -⟩ := exists_rootFields hroot
    have hgrown : Grown [] (.branch .object (fields.map Prod.snd)) := htree ▸ ctx.tree_grown
    rw [map_place_settlements hmembers, htree]
    -- Below an empty base the order of places is the order from that base.
    have hbefore : (reached.flatMap fun field => field.1.callPlaces).Pairwise
        (IsBeforeFrom [] (.branch .object (fields.map Prod.snd))) := by
      refine isBefore_among (fun field hmem => hfields field (hinitial.subset hmem))
        (hinitial.map Prod.snd).sublist (nodup_segments hgrown) fun field hmem => ?_
      have hfield : field ∈ fields := hinitial.subset hmem
      exact (hfields field hfield).inner.pairwise_callPlaces
        (hgrown.of_mem (List.mem_map_of_mem hfield))
    refine hbefore.imp ?_
    rintro _ _ ⟨p, q, rfl, rfl, h⟩
    exact h

/-- **Fields of one object in the schedule.** They are in the order in which they are collected, and in
one visit unless they are root fields that run one after the other. -/
theorem siblings_scheduled {place : ErrorPath} {key key' : String}
    (hkey : place ++ [PathSegment.field key] ∈ ctx.settlements.map Settlement.place)
    (hkey' : place ++ [PathSegment.field key'] ∈ ctx.settlements.map Settlement.place) :
    ∃ groups tree, ctx.tree.subtree? place = some tree ∧ ctx.IsSelection place groups tree ∧
      key ∈ Entries.keys groups ∧ key' ∈ Entries.keys groups ∧
      ([key, key'] <+ Entries.keys groups →
        [place ++ [PathSegment.field key], place ++ [PathSegment.field key']] <+ ctx.schedule.flatten ∧
        (place ≠ [] ∨ ctx.isSerial = false →
          ∃ visit ∈ ctx.schedule,
            [place ++ [PathSegment.field key], place ++ [PathSegment.field key']] <+ visit)) := by
  cases hroot : ctx.rootType? with
  | none =>
    rw [settlements, rootMembers, hroot] at hkey
    exact absurd hkey List.not_mem_nil
  | some root =>
    obtain ⟨fields, reached, hinitial, hfields, ⟨groups, hselection⟩, htree, hmembers, -⟩ :=
      exists_rootFields hroot
    have hgrown : Grown [] (.branch .object (fields.map Prod.snd)) := htree ▸ ctx.tree_grown
    have hreached : ∀ field ∈ reached, field.1.Mirrors ctx [] field.2 := fun field hmem =>
      hfields field (hinitial.subset hmem)
    rw [map_place_settlements hmembers] at hkey hkey'
    cases place with
    | nil =>
      -- The root fields themselves are siblings.
      rw [htree] at hselection
      obtain ⟨hsegments, hnodup⟩ := hselection.segments
      rw [List.map_map] at hsegments
      obtain ⟨hmem, hmem', hpair⟩ := siblings_among hreached hnodup
        (hsegments ▸ hinitial.map fun field => field.2.segment) hkey hkey'
      refine ⟨groups, _, rfl, htree ▸ hselection, hmem, hmem', fun horder => ?_⟩
      -- Run in turn, they keep their order only in the flattened schedule; run together, in its
      -- first visit.
      rw [schedule, hmembers]
      cases hserial : ctx.isSerial with
      | true =>
        exact ⟨(hpair horder).trans (ownPlaces_sublist_inTurn reached), fun hor =>
          hor.elim (fun hne => absurd rfl hne) fun hparallel => Bool.noConfusion hparallel⟩
      | false =>
        have hvisit := (hpair horder).trans (ownPlaces_sublist_together reached)
        have hmem : _ ∈ Schedule.together ((reached.map Prod.fst).map Member.schedule) :=
          Schedule.first_mem (Schedule.together_ne_nil _)
        exact ⟨hvisit.trans (List.sublist_flatten_of_mem hmem), fun _ => ⟨_, hmem, hvisit⟩⟩
    | cons segment rest =>
      rw [List.cons_append] at hkey hkey'
      obtain ⟨field, hfield, rfl, hinside⟩ := exists_inside hreached (by simp) hkey
      obtain ⟨other, hother, hsame, hinside'⟩ := exists_inside hreached (by simp) hkey'
      have hnodup : (fields.map fun field => field.2.segment).Nodup := by
        have hsegments := nodup_segments hgrown
        rw [List.map_map] at hsegments
        exact hsegments
      obtain rfl : other = field := List.inj_on_of_nodup_map hnodup (hinitial.subset hother)
        (hinitial.subset hfield) hsame
      have hplace : other.2 ∈ fields.map Prod.snd := List.mem_map_of_mem (hinitial.subset hfield)
      rw [← List.append_assoc] at hinside hinside'
      obtain ⟨groups, inner, hsubtree, hselection, hmem, hmem', hvisit⟩ :=
        (hreached other hfield).inner.siblings (hgrown.of_mem hplace) hinside hinside'
      refine ⟨groups, inner, ?_, hselection, hmem, hmem', fun horder => ?_⟩
      · rw [htree, subtree?_cons (hgrown.child?_of_mem hplace), hsubtree]
      · obtain ⟨visit, hvisit, hsub⟩ := hvisit horder
        have hroot : other.1 ∈ ctx.rootMembers := hmembers ▸ List.mem_map_of_mem hfield
        obtain ⟨whole, hwhole, hsub'⟩ := ctx.within_schedule hroot visit hvisit
        have hpair := hsub.trans hsub'
        exact ⟨hpair.trans (List.sublist_flatten_of_mem hwhole), fun _ => ⟨whole, hwhole, hpair⟩⟩

end ExecutionContext

/-- **Calls in document order.** In every run of an operation, also one that breaks down, and however
long the resolvers take: no field is called twice; of two fields of one object that are both called,
the one that is collected first is called first, and both in one visit, unless they are root fields that
run one after the other; and if nothing has to wait for the resolvers that are called, the operation is
over at once and the calls are those of its tree, gone through depth first. -/
theorem calls_in_document_order (ctx : ExecutionContext) :
    let calls := Event.callPlaces ctx.respond.log
    let order := ctx.reachedTree.calls.map fun call => call.path.toErrorPath
    calls.Nodup ∧
    (∀ place key key', place ++ [PathSegment.field key] ∈ calls →
      place ++ [PathSegment.field key'] ∈ calls →
      ∃ groups tree, ctx.tree.subtree? place = some tree ∧ ctx.IsSelection place groups tree ∧
        key ∈ Entries.keys groups ∧ key' ∈ Entries.keys groups ∧
        ([key, key'] <+ Entries.keys groups →
          [place ++ [PathSegment.field key], place ++ [PathSegment.field key']] <+ calls ∧
          (place ≠ [] ∨ ctx.isSerial = false → ∃ visit ∈ ctx.respond.visits,
            [place ++ [PathSegment.field key], place ++ [PathSegment.field key']] <+
              Event.callPlaces visit))) ∧
    order.Pairwise ctx.tree.IsBefore ∧
    ((∀ settlement ∈ ctx.settlements, settlement.place ∈ calls → settlement.yields = 0) →
      ctx.respond.isReady = true ∧ calls <+: order ∧
        ∀ response, ctx.respond.outcome = .ok response → calls = order) := by
  intro calls order
  -- The calls of the run follow the schedule of the context, as far as the run gets.
  have hfollows := ctx.respond_callsAt
  -- The settlements are the calls of the reached tree, so that their places are in document order.
  have horder : ctx.settlements.map Settlement.place = order := by
    have hpaths := congrArg (List.map QueryPath.toErrorPath) ctx.paths_settlements
    rw [List.map_map, List.map_map] at hpaths
    exact hpaths
  have hsorted : order.Pairwise ctx.tree.IsBefore := horder ▸ ctx.pairwise_settlements
  -- The schedule only deals them out to visits, and no place comes before itself.
  have hscheduled : ctx.schedule.flatten ~ order := horder ▸ ctx.flatten_schedule_perm
  have hnodup : ctx.schedule.flatten.Nodup :=
    hscheduled.nodup_iff.mpr (hsorted.imp fun h => h.1)
  have hinitial : calls <+: ctx.schedule.flatten := hfollows.initial
  refine ⟨hnodup.sublist hinitial.sublist, fun place key key' hkey hkey' => ?_, hsorted, fun hready => ?_⟩
  · -- Two fields that are called are settled, and what holds of them in the schedule holds of its initial.
    -- Part, as the later one of them is called.
    have hsettled : ∀ path ∈ calls, path ∈ ctx.settlements.map Settlement.place := fun path hmem =>
      horder ▸ hscheduled.subset (hinitial.subset hmem)
    obtain ⟨groups, tree, hsubtree, hselection, hmem, hmem', hpair⟩ :=
      ExecutionContext.siblings_scheduled (hsettled _ hkey) (hsettled _ hkey')
    refine ⟨groups, tree, hsubtree, hselection, hmem, hmem', fun hkeys => ?_⟩
    obtain ⟨hbefore, hvisit⟩ := hpair hkeys
    refine ⟨pair_sublist_of_initial hnodup hinitial hbefore hkey', fun hbeside => ?_⟩
    obtain ⟨visit, hvisit, htogether⟩ := hvisit hbeside
    exact hfollows.same_visit hnodup hvisit htogether hkey hkey'
  · -- Nothing waits: the schedule is a single visit and leaves the settlements in their order.
    rw [← horder]
    exact hfollows.of_keepsOrder (ctx.schedule_keepsOrder hready)

/-- The counts are asked for together with the user, whose fields wait until the user is there. -/
example : ∃ ctx,
    ExecutionContext.build Sample.schema Sample.document Sample.nestedParams = .ok (.ok ctx) ∧
      ctx.respond.visits.map Event.callPlaces =
        [[[.field "user"], [.field "counts"]], [], [],
          [[.field "user", .field "id"], [.field "user", .field "name"]], [], []] :=
  ⟨_, rfl, rfl⟩

end GraphQL
