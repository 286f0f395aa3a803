import GraphQL.Proofs.Coroutine.Breakdowns
import Mathlib.Data.List.Forall2

/-!
# Computations that are cut short

A definition that is bounded by a number of steps gives up where the number is too small. As a
coroutine it then does what it would do with a greater number up to some visit, in which it breaks
down as endless. This is the order in which such computations approximate each other.

* `IsCutOf c d` — `c` is `d`, or it is `d` up to a visit in which it is cut short, with a beginning of
  what `d` logs there;
* `IsCutOf.bind`, `IsCutOf.join`, `IsCutOf.joinAll` — composites of cut parts are cut composites. Side
  by side the cut decides no earlier than the visit in which it happens, and it may then come after
  another breakdown of the same visit, so the order has to be kept visit by visit: what the parts end
  with would not be enough;
* `IsCutOf.eq_of_settles` — a computation that settles has not been cut;
* `IsCutOf.log_isPrefix` — and one that has been cut logs a beginning of what it would have logged.
-/

namespace GraphQL

namespace Coroutine

variable {ε α β γ : Type}

/-- What the first visit logs. -/
def firstLog : Coroutine ε α → List ε
  | .finish log _ | .abort log _ | .suspend log _ => log

/-- The first computation is the second one, possibly cut short in one of its visits. -/
inductive IsCutOf : Coroutine ε α → Coroutine ε α → Prop
  | finish (log : List ε) (result : α) : IsCutOf (.finish log result) (.finish log result)
  | abort (log : List ε) (why : Abort) : IsCutOf (.abort log why) (.abort log why)
  | suspend (log : List ε) {rest rest' : Coroutine ε α} (hrest : IsCutOf rest rest') :
      IsCutOf (.suspend log rest) (.suspend log rest')
  | cut {log : List ε} {d : Coroutine ε α} (hlog : log <+: d.firstLog) : IsCutOf (.abort log .endless) d

theorem firstLog_prepend (events : List ε) (c : Coroutine ε α) :
    (c.prepend events).firstLog = events ++ c.firstLog := by
  cases c <;> rfl

theorem firstLog_map (f : α → β) (c : Coroutine ε α) : (c.map f).firstLog = c.firstLog := by
  cases c <;> rfl

/-- A sequence begins with what its first part begins with. -/
theorem firstLog_prefix_bind (c : Coroutine ε α) (next : α → Coroutine ε β) :
    c.firstLog <+: (c.bind next).firstLog := by
  cases c with
  | finish log result =>
    rw [bind, firstLog_prepend]
    exact List.prefix_append log _
  | abort log why => exact List.prefix_rfl
  | suspend log rest => exact List.prefix_rfl

/-- Two computations side by side begin with what the first one begins with. -/
theorem firstLog_prefix_join (c : Coroutine ε α) (d : Coroutine ε β) :
    c.firstLog <+: (c.join d).firstLog := by
  cases c with
  | abort log why => exact List.prefix_rfl
  | finish log result => cases d <;> exact List.prefix_append log _
  | suspend log rest => cases d <;> exact List.prefix_append log _

/-- And then comes what the second one begins with, unless the first one has broken down. -/
theorem firstLog_join {c : Coroutine ε α} (d : Coroutine ε β) (h : ∀ log why, c ≠ .abort log why) :
    (c.join d).firstLog = c.firstLog ++ d.firstLog := by
  cases c with
  | abort log why => exact absurd rfl (h log why)
  | finish log result => cases d <;> rfl
  | suspend log rest => cases d <;> rfl

/-- The first visit logs a beginning of everything. -/
theorem firstLog_prefix_log (c : Coroutine ε α) : c.firstLog <+: c.log := by
  cases c with
  | finish log result => exact List.prefix_rfl
  | abort log why => exact List.prefix_rfl
  | suspend log rest => exact List.prefix_append log _

namespace IsCutOf

variable {c c' : Coroutine ε α} {d d' : Coroutine ε β}

theorem refl (c : Coroutine ε α) : IsCutOf c c := by
  induction c with
  | finish log result => exact .finish log result
  | abort log why => exact .abort log why
  | suspend log rest ih => exact .suspend log ih

theorem prepend (events : List ε) (h : IsCutOf c c') :
    IsCutOf (c.prepend events) (c'.prepend events) := by
  cases h with
  | finish log result => exact .finish _ result
  | abort log why => exact .abort _ why
  | suspend log hrest => exact .suspend _ hrest
  | cut hlog =>
    refine .cut ?_
    rw [firstLog_prepend]
    exact (List.prefix_append_right_inj events).mpr hlog

/-- Both parts of a sequence may be cut. -/
theorem bind {next next' : α → Coroutine ε β} (h : IsCutOf c c')
    (hnext : ∀ result, IsCutOf (next result) (next' result)) :
    IsCutOf (c.bind next) (c'.bind next') := by
  induction h with
  | finish log result => exact (hnext result).prepend log
  | abort log why => exact .abort log why
  | suspend log _ ih => exact .suspend log ih
  | cut hlog => exact .cut (hlog.trans (firstLog_prefix_bind _ _))

theorem map (f : α → γ) (h : IsCutOf c c') : IsCutOf (c.map f) (c'.map f) := by
  induction h with
  | finish log result => exact .finish log (f result)
  | abort log why => exact .abort log why
  | suspend log _ ih => exact .suspend log ih
  | cut hlog =>
    refine .cut ?_
    rw [firstLog_map]
    exact hlog

/-! ### Side by side -/

/-- The second of two computations side by side is cut in the first visit, in which the first one has
not broken down. -/
theorem join_cut {log log' : List ε} (hc : ∀ log why, c ≠ .abort log why) (hfirst : c.firstLog = log)
    (hlog : log' <+: d'.firstLog) : IsCutOf (.abort (log ++ log') .endless) (c.join d') := by
  refine .cut ?_
  rw [firstLog_join d' hc, hfirst]
  exact (List.prefix_append_right_inj log).mpr hlog

/-- Two computations side by side, each possibly cut. The induction is on the visits of the first one;
in each of them the second one is not over, is over, or is cut. -/
theorem join (h : IsCutOf c c') (h' : IsCutOf d d') : IsCutOf (c.join d) (c'.join d') := by
  induction h generalizing d d' with
  -- The first computation is cut in this visit, whatever the second one does in it.
  | cut hlog => exact .cut (hlog.trans (firstLog_prefix_join _ d'))
  | abort log why => exact .abort log why
  | finish log result =>
    -- The first one is over, so that it is the second one that may be cut.
    cases h' with
    | finish log' result' => exact .finish (log ++ log') (result, result')
    | abort log' why => exact .abort (log ++ log') why
    | suspend log' hrest' => exact .suspend (log ++ log') (hrest'.map (result, ·))
    | cut hlog' => exact join_cut (by simp) rfl hlog'
  | suspend log hrest ih =>
    -- The first one goes on, and may be cut later.
    cases h' with
    | finish log' result' => exact .suspend (log ++ log') (hrest.map (·, result'))
    | abort log' why => exact .abort (log ++ log') why
    | suspend log' hrest' => exact .suspend (log ++ log') (ih hrest')
    | cut hlog' => exact join_cut (by simp) rfl hlog'

/-- **Groups of cut computations are cut groups.** -/
theorem joinAll {cs cs' : List (Coroutine ε α)} (h : List.Forall₂ IsCutOf cs cs') :
    IsCutOf (Coroutine.joinAll cs) (Coroutine.joinAll cs') := by
  induction h with
  | nil => exact .finish [] []
  | cons hfirst _ ih => exact (hfirst.join ih).map _

/-! ### From outside -/

/-- **A computation that settles has not been cut.** -/
theorem eq_of_settles (h : IsCutOf c c') (hsettles : c.Settles) : c = c' := by
  induction h with
  | finish log result => rfl
  | abort log why => rfl
  | suspend log _ ih => rw [ih hsettles]
  | cut _ => exact absurd rfl hsettles

/-- **What has been cut logs a beginning** of what it would have logged. -/
theorem log_isPrefix (h : IsCutOf c c') : c.log <+: c'.log := by
  induction h with
  | finish log result => exact List.prefix_rfl
  | abort log why => exact List.prefix_rfl
  | suspend log _ ih => exact (List.prefix_append_right_inj log).mpr ih
  | cut hlog => exact hlog.trans (firstLog_prefix_log _)

end IsCutOf

end Coroutine

end GraphQL
