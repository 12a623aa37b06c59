import DebugBridge.Tree.Target

/-!
# Commands of a user

What a user may order for a thread, or for a target through its only thread. Whether an order makes
sense at the moment can be asked beforehand. Only the order to terminate is refused; any other is
sent to the interpreter, which knows best what to make of it.

## Main definitions

* `Command`: the orders;
* `World.threadAllows`, `Session.allows`: whether an order makes sense;
* `commandThread`, `commandTarget`: gives an order.
-/

namespace DebugBridge

/-- What a user may order. -/
inductive Command where
  | resume | suspend | stepInto | stepOver | stepReturn | terminate
deriving DecidableEq, Repr

namespace Command

/-- The name of an order. -/
def name : Command → String
  | .resume => "resume"
  | .suspend => "suspend"
  | .stepInto => "step_into"
  | .stepOver => "step_over"
  | .stepReturn => "step_return"
  | .terminate => "terminate"

/-- All orders, those to stop first. -/
def all : List Command :=
  [.suspend, .resume, .stepInto, .stepOver, .stepReturn, .terminate]

/-- Whether a thread in its present state takes an order. Whether it may be terminated depends on
other threads too. -/
def suits (c : Command) (t : Thread) : Bool :=
  match c with
  | .suspend => t.canSuspend
  | .resume | .stepInto | .stepOver | .stepReturn => t.canResume
  | .terminate => !t.isTerminated

/-- The request that carries an order out for a thread. -/
def request (c : Command) (thread : Handle) : Request :=
  match c with
  | .suspend => .suspend (some thread)
  | .resume => .resume (some thread) .clientRequest
  | .stepInto => .resume (some thread) .stepInto
  | .stepOver => .resume (some thread) .stepOver
  | .stepReturn => .resume (some thread) .stepReturn
  | .terminate => .terminate

end Command

/-- Whether an order makes sense for a thread. -/
def World.threadAllows (w : World) (s i : Nat) (c : Command) : Bool :=
  match c with
  | .terminate => w.canTerminateThread s i
  | c => c.suits (w.thread s i)

/-- Whether an order makes sense for a target. -/
def Session.allows (session : Session) (c : Command) : Bool :=
  match c with
  | .terminate => !session.terminated
  | c => session.ofOnlyThread c.suits

/-- Gives an order for a thread. -/
def commandThread (s i : Nat) (c : Command) : Act (Except Failure Unit) := do
  match c with
  | .terminate => terminateThread s i
  | c =>
    post s (c.request ((← get).thread s i).handle)
    return .ok ()

/-- Gives an order for a target. All but the one to terminate are for its only thread. -/
def commandTarget (s : Nat) (c : Command) : Act Unit := do
  match c with
  | .terminate => post s .terminate
  | c => onlyThread s fun i => do post s (c.request ((← get).thread s i).handle)

end DebugBridge
