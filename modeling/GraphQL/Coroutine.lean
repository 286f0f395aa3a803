/-!
# Computations that are run visit by visit

A coroutine runs until it has a result or suspends itself; a later visit goes on from there. It is
given as data: one constructor per visit, with what the visit logs and how it ends.

* `bind` goes on in the same visit in which the first part finishes;
* `joinAll` visits all unfinished members of a group, in order, on every visit of the group, and
  finishes in the visit in which the last member finishes.

A `Call` is the special case of a computation that is over after one visit.
-/

namespace GraphQL

/-- Why a computation stops without a result. -/
inductive Abort where
  /-- A callback panicked, or the engine came to a place that it takes for unreachable. -/
  | panicked (message : String)
  /-- The computation would go on for ever. -/
  | endless
deriving DecidableEq, Repr

namespace Abort

/-- The first member of a list is asked for that has none. -/
def outOfBounds : Abort := .panicked "index out of bounds: the len is 0 but the index is 0"

/-- A branch is taken that no input should lead to. -/
def unreachable : Abort := .panicked "internal error: entered unreachable code"

end Abort

/-- A computation as the visits it takes. Each visit logs some events. -/
inductive Coroutine (ε α : Type) where
  /-- The visit has a result. -/
  | finish (log : List ε) (result : α)
  /-- The visit breaks down. -/
  | abort (log : List ε) (why : Abort)
  /-- The visit leaves the rest to a later one. -/
  | suspend (log : List ε) (rest : Coroutine ε α)

namespace Coroutine

variable {ε ζ α β : Type}

/-- Logs events in front of everything else. -/
def prepend (events : List ε) : Coroutine ε α → Coroutine ε α
  | .finish log result => .finish (events ++ log) result
  | .abort log why => .abort (events ++ log) why
  | .suspend log rest => .suspend (events ++ log) rest

/-- Goes on with the result of a computation, in the visit in which it is there. -/
def bind (c : Coroutine ε α) (next : α → Coroutine ε β) : Coroutine ε β :=
  match c with
  | .finish log result => (next result).prepend log
  | .abort log why => .abort log why
  | .suspend log rest => .suspend log (rest.bind next)

instance : Monad (Coroutine ε) where
  pure := .finish []
  bind := bind

/-- Changes the result. -/
def map (f : α → β) : Coroutine ε α → Coroutine ε β
  | .finish log result => .finish log (f result)
  | .abort log why => .abort log why
  | .suspend log rest => .suspend log (rest.map f)

/-- Changes the events. -/
def mapLog (f : ε → ζ) : Coroutine ε α → Coroutine ζ α
  | .finish log result => .finish (log.map f) result
  | .abort log why => .abort (log.map f) why
  | .suspend log rest => .suspend (log.map f) (rest.mapLog f)

/-- Logs an event. -/
def emit (event : ε) : Coroutine ε Unit := .finish [event] ()

/-- Suspends itself the given number of times. -/
def delay : Nat → Coroutine ε Unit
  | 0 => .finish [] ()
  | n + 1 => .suspend [] (delay n)

/-- Runs two computations side by side, visiting the first one first while both are unfinished. -/
def join : Coroutine ε α → Coroutine ε β → Coroutine ε (α × β)
  | .abort log why, _ => .abort log why
  | .finish log _, .abort log' why => .abort (log ++ log') why
  | .suspend log _, .abort log' why => .abort (log ++ log') why
  | .finish log a, .finish log' b => .finish (log ++ log') (a, b)
  | .finish log a, .suspend log' rest => .suspend (log ++ log') (rest.map (a, ·))
  | .suspend log rest, .finish log' b => .suspend (log ++ log') (rest.map (·, b))
  | .suspend log rest, .suspend log' rest' => .suspend (log ++ log') (join rest rest')

/-- Runs the members of a group side by side and gathers their results in order. -/
def joinAll : List (Coroutine ε α) → Coroutine ε (List α)
  | [] => .finish [] []
  | c :: rest => (join c (joinAll rest)).map fun result => result.1 :: result.2

/-- How many more visits are needed after the first one. -/
def polls : Coroutine ε α → Nat
  | .finish _ _ | .abort _ _ => 0
  | .suspend _ rest => rest.polls + 1

/-- Whether the first visit is the last one. -/
def isReady : Coroutine ε α → Bool
  | .suspend _ _ => false
  | _ => true

/-- Everything that is logged, in order. -/
def log : Coroutine ε α → List ε
  | .finish log _ | .abort log _ => log
  | .suspend log rest => log ++ rest.log

/-- What the last visit ends with. -/
def outcome : Coroutine ε α → Except Abort α
  | .finish _ result => .ok result
  | .abort _ why => .error why
  | .suspend _ rest => rest.outcome

/-- Lets a panic count as the given result. -/
def catchPanic (result : α) : Coroutine ε α → Coroutine ε α
  | .abort log (.panicked _) => .finish log result
  | .suspend log rest => .suspend log (rest.catchPanic result)
  | c => c

end Coroutine

/-- What a callback does when it is called: it returns or panics, having logged some texts. -/
inductive Call (α : Type) where
  | returned (log : List String) (result : α)
  | panicked (log : List String) (message : String)

namespace Call

variable {ε α β : Type}

/-- Logs texts in front of everything else. -/
def prepend (texts : List String) : Call α → Call α
  | .returned log result => .returned (texts ++ log) result
  | .panicked log message => .panicked (texts ++ log) message

/-- Goes on with what a callback returned. -/
def bind (call : Call α) (next : α → Call β) : Call β :=
  match call with
  | .returned log result => (next result).prepend log
  | .panicked log message => .panicked log message

instance : Monad Call where
  pure := .returned []
  bind := bind

/-- Logs a text. -/
def say (text : String) : Call Unit := .returned [text] ()

/-- The single visit of a call. -/
def toCoroutine (event : String → ε) : Call α → Coroutine ε α
  | .returned log result => .finish (log.map event) result
  | .panicked log message => .abort (log.map event) (.panicked message)

end Call

end GraphQL
