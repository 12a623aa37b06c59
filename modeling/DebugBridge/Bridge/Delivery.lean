import DebugBridge.Bridge.Requests
import DebugBridge.Bridge.Schedule
import DebugBridge.Tree.Events

/-!
# Delivery of messages

A session that is pumped takes its messages one at a time. Events go to the model; a front end that
fails breaks off the handling of an event, which is logged, and the delivery goes on. Requests go to
the interpreter side, and after each the interpreter threads go on as far as they can.

## Main definitions

* `Bridge.deliver`: hands one message over;
* `Bridge.workload`: a bound on the messages that follow from the present state;
* `Bridge.pump`: delivers all messages of a session and what follows from them.
-/

namespace DebugBridge

-- Sums start from the zero of core, whatever algebra is in scope.
attribute [local instance (high)] Zero.ofOfNat0

namespace Bridge

variable {σ : Type} [Inhabited σ] [Engine σ]

/-- Takes the oldest message of a session. -/
def take (s : Nat) (b : Bridge σ) : Option Message × Bridge σ :=
  let (m, mailbox) := (b.world.session s).mailbox.take
  (m, b.onWorld (·.modifySession s fun session => { session with mailbox }))

/-- Hands an event to the model. -/
def deliverEvent (s : Nat) (e : Event) (b : Bridge σ) : Bridge σ :=
  match b.act (handleEvent s e) with
  | (.ok (), b) => b
  | (.error failure, b) =>
    b.onWorld (·.log .error "dispatcher" (brokenOff failure))

/-- Lets the debugger of a session take a request, and then the interpreter threads go on. -/
def instruct (s : Nat) (r : Request) (b : Bridge σ) : Bridge σ :=
  (b.receive s r).settle.newTurn

/-- Hands a request to the interpreter side. Without a debugger it is only received. -/
def deliverRequest (s : Nat) (r : Request) (b : Bridge σ) : Bridge σ :=
  let b := b.onWorld (·.noteReceived s r)
  if (b.world.session s).debugger.isSome then b.instruct s r else b

/-- Hands a message to the side that it is for. -/
def deliver (s : Nat) (m : Message) (b : Bridge σ) : Bridge σ :=
  let b := b.trace "dispatcher" ("route " ++ m.text b.world.marks)
  match m with
  | .event e => b.deliverEvent s e
  | .request r => b.deliverRequest s r

/-! ### How much there is to deliver -/

/-- How many messages follow from a message, itself included, where a script has at most a number of
breakpoints. A script that is ready is answered by its breakpoints and a request to resume, and what
is asked of a thread by one event. -/
def messageLoad (breakpoints : Nat) : Message → Nat
  | .event (.scriptReady _ _ _) => breakpoints + 2
  | .event _ => 1
  | .request (.getStackFrames _) | .request (.getVariables _) | .request (.setVariable _ _ _ _)
  | .request (.evaluate _ _ _ _) | .request .terminate => 2
  | .request _ => 1

/-- How many messages follow from a call. A thread that waits will report that it goes on. -/
def callLoad (breakpoints : Nat) : Call → Nat
  | .engineStarted | .engineFinished | .threadStarted | .threadFinished => 1
  | .scriptStarted _ => breakpoints + 3
  | .line _ _ => 2
  | .push _ | .pop | .stack | .currentThread | .bind _ _ | .check => 0

/-- How many messages follow from the state of an execution. -/
def executionLoad (x : Execution) : Nat :=
  x.pending.length + if x.waiting.isSome then 1 else 0

/-- A bound on the messages that a session delivers before none is left, if nobody interferes. -/
def workload (b : Bridge σ) (s : Nat) : Nat :=
  let session := b.world.session s
  let breakpoints := (b.world.manager session.manager).breakpoints.length
  let workers := b.interpreters.filter fun i => i.session = s
  ((deliverable session.mailbox.queue).map (messageLoad breakpoints)).sum
    + ((b.world.debugger s).executions.map executionLoad).sum
    + ((workers.flatMap Interpreter.calls).map (callLoad breakpoints)).sum

/-- Delivers the messages of a session and all that follow from them, and counts them. One more than
the workload finds no message left. -/
def pump (b : Bridge σ) (s : Nat) : Nat × Bridge σ :=
  drain (take s) (deliver s) (b.workload s + 1) b

end Bridge

end DebugBridge
