import GraphQL.Coroutine
import Mathlib.Data.List.Basic
import Mathlib.Data.List.Infix
import Mathlib.Data.List.Nodup

/-!
# Schedules

A schedule says what happens in which visit of a computation. It is put together as computations are:
what runs side by side happens in the same visits, and what comes afterwards starts in the last visit
of what comes first.

* `Schedule.beside`, `Schedule.andThen` — the composites of two schedules, `Schedule.together` and
  `Schedule.inTurn` — those of a list of them;
* `Coroutine.Follows` — a computation logs what its schedule says, up to where it breaks down;
  `Follows.bind`, `Follows.joinAll` — the composites;
* `Follows.initial`, `Follows.same_visit`, `Follows.of_keepsOrder` — what is said of a schedule, said of
  the visits;
* `Schedule.KeepsOrder` — as long as nothing has to wait, a schedule keeps an order.
-/

open scoped List

namespace GraphQL

/-- In a list without duplicates, two entries keep their order in every initial part that has both. -/
theorem pair_sublist_of_initial {κ : Type} {l m : List κ} {a b : κ} (hnodup : m.Nodup)
    (hinitial : l <+: m) (h : [a, b] <+ m) (hb : b ∈ l) : [a, b] <+ l := by
  obtain ⟨rest, rfl⟩ := hinitial
  obtain ⟨before, after, hpair, hbefore, hafter⟩ := List.sublist_append_iff.mp h
  obtain ⟨-, -, hdisjoint⟩ := List.nodup_append.mp hnodup
  -- The second entry is in the initial part, so none of the pair is in the rest.
  cases after using List.reverseRecOn with
  | nil => rw [hpair, List.append_nil]; exact hbefore
  | append_singleton after last =>
    rw [← List.append_assoc] at hpair
    obtain rfl : b = last := by
      have hlast := congrArg List.getLast? hpair
      simpa using hlast
    exact absurd rfl (hdisjoint b hb b (hafter.subset (by simp)))

/-- What happens visit by visit. There is at least one visit. -/
abbrev Schedule (κ : Type) := List (List κ)

namespace Schedule

variable {ι κ : Type} {s t : Schedule κ} {a b : List κ}

/-- One visit in which nothing happens. -/
def idle : Schedule κ := [[]]

/-- Side by side, the first one first in every visit. -/
def beside : Schedule κ → Schedule κ → Schedule κ
  | [], t => t
  | s, [] => s
  | a :: s, b :: t => (a ++ b) :: beside s t

/-- One after the other: the second one starts in the last visit of the first one. -/
def andThen : Schedule κ → Schedule κ → Schedule κ
  | [], t => t
  | [a], t => beside [a] t
  | a :: b :: s, t => a :: andThen (b :: s) t

/-- All of them side by side. -/
def together (schedules : List (Schedule κ)) : Schedule κ := schedules.foldr beside idle

/-- All of them one after the other. -/
def inTurn (schedules : List (Schedule κ)) : Schedule κ := schedules.foldr andThen idle

/-- Something happens, and then nothing for the given number of visits. -/
def pause (what : κ) (visits : Nat) : Schedule κ := [what] :: List.replicate visits []

@[simp] theorem nil_beside (t : Schedule κ) : beside [] t = t := by
  rw [beside]

@[simp] theorem beside_nil (s : Schedule κ) : beside s [] = s := by
  cases s <;> rfl

theorem cons_beside_cons (a b : List κ) (s t : Schedule κ) :
    beside (a :: s) (b :: t) = (a ++ b) :: beside s t := rfl

theorem cons_andThen (hs : s ≠ []) : andThen (a :: s) t = a :: andThen s t := by
  cases s with
  | nil => exact absurd rfl hs
  | cons b s => rfl

theorem beside_ne_nil (ht : t ≠ []) : beside s t ≠ [] := by
  obtain ⟨b, t, rfl⟩ := List.exists_cons_of_ne_nil ht
  cases s with
  | nil => exact List.cons_ne_nil b t
  | cons a s => exact List.cons_ne_nil (a ++ b) _

theorem andThen_ne_nil (ht : t ≠ []) : andThen s t ≠ [] := by
  match s with
  | [] => exact ht
  | [a] => exact beside_ne_nil ht
  | a :: b :: s => exact List.cons_ne_nil a _

theorem together_ne_nil (schedules : List (Schedule κ)) : together schedules ≠ [] := by
  induction schedules with
  | nil => exact List.cons_ne_nil [] []
  | cons s rest ih => exact beside_ne_nil ih

/-- A visit in which nothing happens adds nothing to the first visit of what is beside it. -/
theorem idle_beside (ht : t ≠ []) : beside idle t = t := by
  obtain ⟨b, t, rfl⟩ := List.exists_cons_of_ne_nil ht
  rfl

theorem idle_andThen (ht : t ≠ []) : andThen idle t = t := idle_beside ht

/-- What comes afterwards adds to the last visit and after it. -/
theorem exists_andThen_cons (a : List κ) (s t : Schedule κ) :
    ∃ more later, andThen (a :: s) t = (a ++ more) :: later := by
  cases s with
  | nil =>
    cases t with
    | nil => exact ⟨[], [], by simp [andThen]⟩
    | cons b t => exact ⟨b, t, rfl⟩
  | cons b s => exact ⟨[], andThen (b :: s) t, by rw [List.append_nil, cons_andThen (by simp)]⟩

/-! ### What happens at all -/

/-- Side by side the same happens as in both, in another order. -/
theorem flatten_beside_perm (s t : Schedule κ) :
    (beside s t).flatten ~ s.flatten ++ t.flatten := by
  induction s generalizing t with
  | nil => rw [nil_beside]; exact .refl _
  | cons a s ih =>
    cases t with
    | nil => rw [beside_nil, List.flatten_nil, List.append_nil]
    | cons b t =>
      simp only [cons_beside_cons, List.flatten_cons, List.append_assoc]
      -- What the second one does in this visit comes before the later visits of the first one.
      have hswap : (b ++ (s.flatten ++ t.flatten)) ~ s.flatten ++ (b ++ t.flatten) :=
        List.perm_append_comm_assoc _ _ _
      exact (((ih t).append_left b).trans hswap).append_left a

/-- One after the other, everything of the second one happens after everything of the first one. -/
theorem flatten_andThen (s t : Schedule κ) : (andThen s t).flatten = s.flatten ++ t.flatten := by
  induction s with
  | nil => rfl
  | cons a s ih =>
    cases s with
    | nil => cases t <;> simp [andThen, beside]
    | cons b s =>
      simp only [cons_andThen (List.cons_ne_nil b s), List.flatten_cons, List.append_assoc] at ih ⊢
      rw [ih]

theorem flatten_together_perm (schedules : List (Schedule κ)) :
    (together schedules).flatten ~ schedules.flatMap List.flatten := by
  induction schedules with
  | nil => exact .refl _
  | cons s rest ih => exact (flatten_beside_perm s _).trans (ih.append_left _)

theorem flatten_inTurn (schedules : List (Schedule κ)) :
    (inTurn schedules).flatten = schedules.flatMap List.flatten := by
  induction schedules with
  | nil => rfl
  | cons s rest ih =>
    rw [List.flatMap_cons, ← ih]
    exact flatten_andThen s _

theorem flatten_pause (what : κ) (visits : Nat) : (pause what visits).flatten = [what] := by
  simp [pause]

/-! ### Visits of parts -/

/-- Every visit of the one is part of a visit of the other. -/
def Within (s t : Schedule κ) : Prop := ∀ visit ∈ s, ∃ whole ∈ t, visit <+ whole

namespace Within

variable {u : Schedule κ}

theorem refl (s : Schedule κ) : Within s s := fun visit h => ⟨visit, h, .refl visit⟩

theorem trans (h : Within s t) (h' : Within t u) : Within s u := by
  intro visit hvisit
  obtain ⟨whole, hwhole, hsub⟩ := h visit hvisit
  obtain ⟨more, hmore, hsub'⟩ := h' whole hwhole
  exact ⟨more, hmore, hsub.trans hsub'⟩

theorem cons (hab : a <+ b) (h : Within s t) : Within (a :: s) (b :: t) := by
  rintro visit (_ | ⟨_, hvisit⟩)
  · exact ⟨b, List.mem_cons_self, hab⟩
  · obtain ⟨whole, hwhole, hsub⟩ := h visit hvisit
    exact ⟨whole, List.mem_cons_of_mem b hwhole, hsub⟩

theorem cons_right (h : Within s t) : Within s (b :: t) := by
  intro visit hvisit
  obtain ⟨whole, hwhole, hsub⟩ := h visit hvisit
  exact ⟨whole, List.mem_cons_of_mem b hwhole, hsub⟩

theorem beside_left (s t : Schedule κ) : Within s (beside s t) := by
  induction s generalizing t with
  | nil => intro visit h; exact absurd h List.not_mem_nil
  | cons a s ih =>
    cases t with
    | nil => rw [beside_nil]; exact refl _
    | cons b t => exact cons (List.sublist_append_left a b) (ih t)

theorem beside_right (s t : Schedule κ) : Within t (beside s t) := by
  induction s generalizing t with
  | nil => rw [nil_beside]; exact refl t
  | cons a s ih =>
    cases t with
    | nil => intro visit h; exact absurd h List.not_mem_nil
    | cons b t => exact cons (List.sublist_append_right a b) (ih t)

theorem andThen_left (s t : Schedule κ) : Within s (andThen s t) := by
  induction s with
  | nil => intro visit h; exact absurd h List.not_mem_nil
  | cons a s ih =>
    cases s with
    | nil => exact beside_left [a] t
    | cons b s => exact cons (.refl a) ih

theorem andThen_right (s t : Schedule κ) : Within t (andThen s t) := by
  induction s with
  | nil => exact refl t
  | cons a s ih =>
    cases s with
    | nil => exact beside_right [a] t
    | cons b s => exact ih.cons_right

theorem together {schedules : List (Schedule κ)} (h : s ∈ schedules) :
    Within s (together schedules) := by
  induction schedules with
  | nil => exact absurd h List.not_mem_nil
  | cons t rest ih =>
    rcases List.mem_cons.mp h with rfl | h
    · exact beside_left s _
    · exact (ih h).trans (beside_right t _)

theorem inTurn {schedules : List (Schedule κ)} (h : s ∈ schedules) :
    Within s (inTurn schedules) := by
  induction schedules with
  | nil => exact absurd h List.not_mem_nil
  | cons t rest ih =>
    rcases List.mem_cons.mp h with rfl | h
    · exact andThen_left s _
    · exact (ih h).trans (andThen_right t _)

end Within

/-! ### First visits -/

/-- What happens in the first visit. -/
def first (s : Schedule κ) : List κ := s.headD []

theorem first_beside (s t : Schedule κ) : (beside s t).first = s.first ++ t.first := by
  cases s with
  | nil => rw [nil_beside]; rfl
  | cons a s =>
    cases t with
    | nil => rw [beside_nil]; exact (List.append_nil a).symm
    | cons b t => rfl

theorem first_together (schedules : List (Schedule κ)) :
    (together schedules).first = schedules.flatMap first := by
  induction schedules with
  | nil => rfl
  | cons s rest ih =>
    rw [List.flatMap_cons, ← ih]
    exact first_beside s _

theorem first_mem (hs : s ≠ []) : s.first ∈ s := by
  obtain ⟨a, s, rfl⟩ := List.exists_cons_of_ne_nil hs
  exact List.mem_cons_self

theorem first_sublist_andThen (s t : Schedule κ) (hs : s ≠ []) : s.first <+ (andThen s t).first := by
  obtain ⟨a, s, rfl⟩ := List.exists_cons_of_ne_nil hs
  obtain ⟨more, later, hlater⟩ := exists_andThen_cons a s t
  rw [hlater]
  exact List.sublist_append_left a more

/-! ### Where nothing has to wait -/

/-- As far as nothing has to wait for what happens in the first visit, it happens in the given order;
and if nothing has to wait for any of that, there is no other visit. -/
def KeepsOrder (ready : κ → Prop) (s : Schedule κ) (order : List κ) : Prop :=
  ∃ now later, s = now :: later ∧ ∀ begun, begun <+: now → (∀ what ∈ begun, ready what) →
    begun <+: order ∧ (begun = now → later = [] ∧ now = order)

namespace KeepsOrder

variable {ready : κ → Prop} {order order' : List κ}

theorem idle (ready : κ → Prop) : KeepsOrder ready idle [] := by
  refine ⟨[], [], rfl, fun begun hbegun _ => ⟨hbegun, fun _ => ⟨rfl, rfl⟩⟩⟩

/-- Something that nothing has to wait for is over in its visit. -/
theorem pause {what : κ} {visits : Nat} (h : ready what → visits = 0) :
    KeepsOrder ready (pause what visits) [what] := by
  refine ⟨[what], _, rfl, fun begun hbegun hready => ⟨hbegun, ?_⟩⟩
  rintro rfl
  rw [h (hready what List.mem_cons_self)]
  exact ⟨rfl, rfl⟩

/-- Two orders side by side keep their concatenation. A visit that has begun is a part of the first
order, or all of it and a part of the second one. So where nothing that has begun has to wait, the
first order is complete before the second one begins. -/
theorem beside (h : KeepsOrder ready s order) (h' : KeepsOrder ready t order') :
    KeepsOrder ready (beside s t) (order ++ order') := by
  obtain ⟨now, later, rfl, h⟩ := h
  obtain ⟨now', later', rfl, h'⟩ := h'
  -- What has begun of the visit is a part of the first order, or all of it and a part of the
  -- second.
  refine ⟨now ++ now', Schedule.beside later later', rfl, fun begun hbegun hready => ?_⟩
  rcases List.prefix_or_prefix_of_prefix hbegun (List.prefix_append now now') with hpart | hpart
  · obtain ⟨hinitial, hall⟩ := h begun hpart hready
    refine ⟨hinitial.trans (List.prefix_append _ _), fun heq => ?_⟩
    -- All of the visit has begun, so there is nothing of the second one in it.
    have hnow' : now' = [] := by
      have hlength := hpart.length_le
      rw [heq, List.length_append] at hlength
      exact List.eq_nil_of_length_eq_zero (by omega)
    obtain ⟨-, hall'⟩ := h' [] List.nil_prefix (fun _ hmem => absurd hmem List.not_mem_nil)
    obtain ⟨rfl, hnow⟩ := hall (by rw [heq, hnow', List.append_nil])
    obtain ⟨rfl, horder⟩ := hall' hnow'.symm
    exact ⟨rfl, by rw [hnow, horder]⟩
  · -- The first one has begun as a whole, and the second one in part.
    obtain ⟨begun', rfl⟩ := hpart
    obtain ⟨-, hall⟩ := h now List.prefix_rfl fun what hmem => hready what (by simp [hmem])
    obtain ⟨rfl, hnow⟩ := hall rfl
    obtain ⟨hinitial, hall'⟩ := h' begun' ((List.prefix_append_right_inj now).mp hbegun)
      fun what hmem => hready what (by simp [hmem])
    rw [← hnow]
    refine ⟨(List.prefix_append_right_inj now).mpr hinitial, fun heq => ?_⟩
    obtain ⟨rfl, hnow'⟩ := hall' (List.append_cancel_left heq)
    exact ⟨rfl, by rw [hnow']⟩

theorem andThen (h : KeepsOrder ready s order) (h' : KeepsOrder ready t order') :
    KeepsOrder ready (andThen s t) (order ++ order') := by
  obtain ⟨now, later, rfl, hfirst⟩ := id h
  cases later with
  | nil => exact h.beside h'
  | cons next later =>
    refine ⟨now, _, cons_andThen (by simp), fun begun hbegun hready => ?_⟩
    obtain ⟨hinitial, hall⟩ := hfirst begun hbegun hready
    refine ⟨hinitial.trans (List.prefix_append _ _), fun heq => ?_⟩
    exact absurd (hall heq).1 (List.cons_ne_nil next later)

theorem together {items : List ι} {schedule : ι → Schedule κ} {order : ι → List κ}
    (h : ∀ i ∈ items, KeepsOrder ready (schedule i) (order i)) :
    KeepsOrder ready (together (items.map schedule)) (items.flatMap order) := by
  induction items with
  | nil => exact .idle ready
  | cons i rest ih =>
    exact (h i List.mem_cons_self).beside (ih fun j hj => h j (List.mem_cons_of_mem i hj))

theorem inTurn {items : List ι} {schedule : ι → Schedule κ} {order : ι → List κ}
    (h : ∀ i ∈ items, KeepsOrder ready (schedule i) (order i)) :
    KeepsOrder ready (inTurn (items.map schedule)) (items.flatMap order) := by
  induction items with
  | nil => exact .idle ready
  | cons i rest ih =>
    exact (h i List.mem_cons_self).andThen (ih fun j hj => h j (List.mem_cons_of_mem i hj))

end KeepsOrder

end Schedule

/-! ### Computations -/

namespace Coroutine

variable {ε ζ ι κ α β : Type}

/-- What is logged in each visit. -/
def visits : Coroutine ε α → List (List ε)
  | .finish log _ | .abort log _ => [log]
  | .suspend log rest => log :: rest.visits

theorem flatten_visits (c : Coroutine ε α) : c.visits.flatten = c.log := by
  induction c with
  | suspend log rest ih => exact congrArg (log ++ ·) ih
  | _ => exact List.append_nil _

/-- There is one visit more than has to be waited for. -/
theorem length_visits (c : Coroutine ε α) : c.visits.length = c.polls + 1 := by
  induction c with
  | suspend log rest ih => exact congrArg (· + 1) ih
  | _ => rfl

/-- The computation does what the schedule says, visit by visit, as far as marks show it. In the visit
in which it breaks down it does a part of that, and nothing afterwards. -/
inductive Follows (mark : ε → Option κ) : Coroutine ε α → Schedule κ → Prop
  | finish {log : List ε} {now : List κ} (result : α) (h : log.filterMap mark = now) :
      Follows mark (.finish log result) [now]
  | abort {log : List ε} {now : List κ} (why : Abort) (later : Schedule κ)
      (h : log.filterMap mark <+: now) : Follows mark (.abort log why) (now :: later)
  | suspend {log : List ε} {now : List κ} {rest : Coroutine ε α} {later : Schedule κ}
      (h : log.filterMap mark = now) (hrest : Follows mark rest later) :
      Follows mark (.suspend log rest) (now :: later)

namespace Follows

variable {mark : ε → Option κ} {c : Coroutine ε α} {d : Coroutine ε β} {s t : Schedule κ}

theorem ne_nil (h : Follows mark c s) : s ≠ [] := by
  cases h <;> simp

/-- What breaks down without a mark keeps to every schedule. -/
theorem of_abort {log : List ε} (why : Abort) (hlog : log.filterMap mark = []) (hs : s ≠ []) :
    Follows mark (.abort log why : Coroutine ε α) s := by
  obtain ⟨now, later, rfl⟩ := List.exists_cons_of_ne_nil hs
  exact .abort why later (hlog ▸ List.nil_prefix)

/-- What has no mark does nothing in any of its visits. -/
theorem of_unmarked (h : c.log.filterMap mark = []) :
    Follows mark c (List.replicate (c.polls + 1) []) := by
  induction c with
  | finish log result => exact .finish result h
  | abort log why => exact .abort why [] (h ▸ List.nil_prefix)
  | suspend log rest ih =>
    rw [Coroutine.log, List.filterMap_append, List.append_eq_nil_iff] at h
    exact .suspend h.1 (ih h.2)

theorem map (f : α → β) (h : Follows mark c s) : Follows mark (c.map f) s := by
  induction h with
  | finish result h => exact .finish _ h
  | abort why later h => exact .abort why later h
  | suspend h hrest ih => exact .suspend h ih

theorem prepend {log : List ε} {now : List κ} (hlog : log.filterMap mark = now)
    (h : Follows mark c s) : Follows mark (c.prepend log) (Schedule.beside [now] s) := by
  cases h with
  | finish result h => exact .finish _ (by rw [List.filterMap_append, hlog, h])
  | abort why later h =>
    refine .abort why _ ?_
    rw [List.filterMap_append, hlog]
    exact (List.prefix_append_right_inj now).mpr h
  | suspend h hrest => exact .suspend (by rw [List.filterMap_append, hlog, h]) hrest

/-- **One after the other** the second one starts in the last visit of the first one. -/
theorem bind {next : α → Coroutine ε β} (h : Follows mark c s)
    (hnext : ∀ result, c.outcome = .ok result → Follows mark (next result) t) :
    Follows mark (c.bind next) (s.andThen t) := by
  induction h with
  | finish result h => exact (hnext result rfl).prepend h
  | @abort log now why later h =>
    obtain ⟨more, later', hlater⟩ := Schedule.exists_andThen_cons now later t
    rw [hlater]
    exact .abort why later' (h.trans (List.prefix_append _ _))
  | suspend h hrest ih =>
    rw [Schedule.cons_andThen hrest.ne_nil]
    exact .suspend h (ih hnext)

/-- What happens at once and without a mark may come after a computation. -/
theorem bind_finish {next : α → Coroutine ε β} (h : Follows mark c s)
    (hnext : ∀ result, ∃ log value, next result = .finish log value ∧ log.filterMap mark = []) :
    Follows mark (c.bind next) s := by
  -- What comes after adds nothing to the schedule.
  have hfollows : ∀ result, Follows mark (next result) [[]] := by
    intro result
    obtain ⟨log, value, hvalue, hlog⟩ := hnext result
    rw [hvalue]
    exact .finish value hlog
  induction h with
  | finish result h =>
    have hnow := (hfollows result).prepend h
    rw [Schedule.cons_beside_cons, List.append_nil] at hnow
    exact hnow
  | abort why later h => exact .abort why later h
  | suspend h hrest ih => exact .suspend h ih

/-- **Side by side** both go on in every visit, up to where one of them breaks down. -/
theorem join (h : Follows mark c s) (h' : Follows mark d t) :
    Follows mark (c.join d) (s.beside t) := by
  -- The induction is on the visits of the first computation; the second one may be any.
  induction h generalizing d t with
  | @abort log now why later h =>
    obtain ⟨now', later', rfl⟩ := List.exists_cons_of_ne_nil h'.ne_nil
    rw [Coroutine.join]
    exact .abort why _ (h.trans (List.prefix_append _ _))
  | @finish log now result h =>
    cases h' with
    | finish result' h' => exact .finish _ (by rw [List.filterMap_append, h, h'])
    | abort why later' h' =>
      refine .abort why later' ?_
      rw [List.filterMap_append, h]
      exact (List.prefix_append_right_inj now).mpr h'
    | suspend h' hrest' => exact .suspend (by rw [List.filterMap_append, h, h']) (hrest'.map _)
  | @suspend log now rest later h hrest ih =>
    cases h' with
    | finish result' h' =>
      rw [Schedule.cons_beside_cons, Schedule.beside_nil]
      exact .suspend (by rw [List.filterMap_append, h, h']) (hrest.map _)
    | abort why later' h' =>
      refine .abort why _ ?_
      rw [List.filterMap_append, h]
      exact (List.prefix_append_right_inj now).mpr h'
    | suspend h' hrest' => exact .suspend (by rw [List.filterMap_append, h, h']) (ih hrest')

/-- **A group** goes on with all its members in every visit. -/
theorem joinAll {members : List ι} {run : ι → Coroutine ε α} {schedule : ι → Schedule κ}
    (h : ∀ i ∈ members, Follows mark (run i) (schedule i)) :
    Follows mark (Coroutine.joinAll (members.map run))
      (Schedule.together (members.map schedule)) := by
  induction members with
  | nil => exact .finish [] rfl
  | cons i rest ih =>
    have hrest := ih fun j hj => h j (List.mem_cons_of_mem i hj)
    exact ((h i List.mem_cons_self).join hrest).map _

/-! ### What is said of visits -/

/-- What a computation has done is what its schedule says first. -/
theorem initial (h : Follows mark c s) : c.log.filterMap mark <+: s.flatten := by
  induction h with
  | finish result h =>
    rw [log, h, List.flatten_singleton]
  | abort why later h =>
    rw [log, List.flatten_cons]
    exact h.trans (List.prefix_append _ _)
  | @suspend log now rest later h hrest ih =>
    rw [Coroutine.log, List.filterMap_append, List.flatten_cons, h]
    exact (List.prefix_append_right_inj now).mpr ih

/-- A computation that ends has done all that its schedule says. -/
theorem visits_eq (h : Follows mark c s) {result : α} (hresult : c.outcome = .ok result) :
    c.visits.map (List.filterMap mark) = s := by
  induction h with
  | finish result h => rw [visits, List.map_singleton, h]
  | abort why later h => cases hresult
  | suspend h hrest ih => rw [visits, List.map_cons, h, ih hresult]

/-- **If nothing has to wait** for what a computation does, it is over at once and has kept the order. -/
theorem of_keepsOrder (h : Follows mark c s) {order : List κ}
    (hkeeps : s.KeepsOrder (· ∈ c.log.filterMap mark) order) :
    c.isReady = true ∧ c.log.filterMap mark <+: order ∧
      ∀ result, c.outcome = .ok result → c.log.filterMap mark = order := by
  obtain ⟨now, later, rfl, hbegun⟩ := hkeeps
  cases h with
  | @finish log _ result h =>
    obtain ⟨hinitial, hall⟩ := hbegun (log.filterMap mark) (h ▸ List.prefix_rfl) fun _ hmem => hmem
    exact ⟨rfl, hinitial, fun _ _ => h.trans (hall h).2⟩
  | abort why later h => exact ⟨rfl, (hbegun _ h fun _ hmem => hmem).1, fun _ hresult => nomatch hresult⟩
  | @suspend log _ rest _ h hrest =>
    -- All of the visit has been done, so there is no other one.
    obtain ⟨-, hall⟩ := hbegun now List.prefix_rfl fun what hmem => by
      rw [Coroutine.log, List.filterMap_append, h]
      exact List.mem_append_left _ hmem
    exact absurd (hall rfl).1 hrest.ne_nil

/-- **What the schedule has in one visit the computation does in one visit**, if it does it at all.
The induction is on the visits. The marks of a schedule are distinct, so a mark that is logged at
all is logged in the one visit that has it. -/
theorem same_visit (h : Follows mark c s) (hnodup : s.flatten.Nodup) {a b : κ} {visit : List κ}
    (hvisit : visit ∈ s) (hpair : [a, b] <+ visit)
    (ha : a ∈ c.log.filterMap mark) (hb : b ∈ c.log.filterMap mark) :
    ∃ log ∈ c.visits, [a, b] <+ log.filterMap mark := by
  induction h with
  | @finish log now result h =>
    obtain rfl := List.mem_singleton.mp hvisit
    exact ⟨log, List.mem_singleton_self log, h ▸ hpair⟩
  -- The visits before a breakdown are made; the one in which it happens is made in part.
  | @abort log now why later h =>
    obtain ⟨hnow, -, hdisjoint⟩ := List.nodup_append.mp hnodup
    rcases List.mem_cons.mp hvisit with rfl | hlater
    · exact ⟨log, List.mem_singleton_self log, pair_sublist_of_initial hnow h hpair hb⟩
    · -- The visit has not been made.
      have hmem : b ∈ later.flatten := List.mem_flatten_of_mem hlater (hpair.subset (by simp))
      exact absurd rfl (hdisjoint b (h.subset hb) b hmem)
  | @suspend log now rest later h hrest ih =>
    rw [Coroutine.log, List.filterMap_append, h, List.mem_append] at ha hb
    obtain ⟨-, hnodup, hdisjoint⟩ := List.nodup_append.mp hnodup
    rcases List.mem_cons.mp hvisit with rfl | hlater
    · exact ⟨log, List.mem_cons_self, h ▸ hpair⟩
    -- A later visit shares nothing with the one that has been made, so both marks come from the
    -- rest.
    · have hlater' : ∀ what ∈ visit, what ∈ later.flatten := fun what hwhat =>
        List.mem_flatten_of_mem hlater hwhat
      have hin : ∀ what ∈ visit, what ∉ now := fun what hwhat hnow =>
        hdisjoint what hnow what (hlater' what hwhat) rfl
      obtain ⟨found, hfound, hsub⟩ := ih hnodup hlater
        (ha.resolve_left (hin a (hpair.subset (by simp))))
        (hb.resolve_left (hin b (hpair.subset (by simp))))
      exact ⟨found, List.mem_cons_of_mem log hfound, hsub⟩

end Follows

end Coroutine

end GraphQL
