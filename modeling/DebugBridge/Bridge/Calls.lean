import DebugBridge.Bridge.Serving

/-!
# Calls of interpreter threads

At each call the debugger brings the execution of the thread up to date and decides whether the
thread is held up. A thread waits before every visible script, until the model has had its say, and
at a line for one of the reasons of `Execution.stopReason`. A debugger that is not attached holds up
nobody, for nobody could release them.

## Main definitions

* `Bridge.suspend`: holds a thread up;
* `Bridge.perform`: makes a call.
-/

namespace DebugBridge

namespace World

/-- Changes the execution of an interpreter thread. -/
def modifyExecution (w : World) (i : Interpreter) (f : Execution → Execution) : World :=
  let (x, w) := w.executionOf i
  w.putExecution i.session (f x)

/-- The innermost call of a thread is left. -/
def popActivation (w : World) (i : Interpreter) : Option Activation × World :=
  let (x, w) := w.executionOf i
  (x.stack.head?, w.putExecution i.session { x with stack := x.stack.tail })

/-- The innermost call of a thread reaches a line, and the reason to stop there, if any. A request
to suspend is spent by a stop for whatever reason. -/
def reachLine (w : World) (i : Interpreter) (script : Script) (line : Nat) :
    Option SuspendReason × World :=
  let d := w.debugger i.session
  let onBreakpoint := d.table.isActive w.marks script line
  let (x, w) := w.executionOf i
  match x.stack with
  | [] => (none, w)
  | top :: _ =>
    let w := { w with marks := w.marks.moveTo top line }
    match x.stopReason w.marks onBreakpoint with
    | none => (none, w)
    | some reason =>
      let w := w.putExecution i.session { x with suspendRequested := false }
      (some reason, w.trace "runtime" s!"{i.name} stops at {script.title}:{line} ({reason.name})")

/-- Tells the model that a thread is gone, if it was known. -/
def finishThread (w : World) (i : Interpreter) : World :=
  match (w.debugger i.session).ofOwner? i.id with
  | none => w
  | some x =>
    (w.modifyDebugger i.session (·.erase i.id)).fire i.session (.threadTerminated x.handle)

/-- Tells the model that the interpreter has finished, and forgets all threads. -/
def finishEngine (w : World) (s : Nat) : World :=
  let w := (w.fire s .engineTerminated).detach s
  w.modifyDebugger s fun d => { d with executions := [] }

end World

namespace Bridge

variable {σ : Type} [Inhabited σ] [Engine σ]

/-- Holds a thread up until it is resumed, with an event that says so. The requests that were put
off until now are served. -/
def suspend (b : Bridge σ) (i : Interpreter) (gate : Gate) (event : Execution → Event) :
    Bridge σ :=
  if (b.world.debugger i.session).attached then
    let (x, world) := b.world.executionOf i
    let x := { x with waiting := some gate }
    let b := { b with world := world.putExecution i.session x }.fire i.session (event x)
    serveAll i.session x x.pending (b.trace "runtime" (i.name ++ " suspended"))
  else b

/-- A visible script is about to run, and its thread waits. -/
def startScript (b : Bridge σ) (i : Interpreter) (script : Script) : Bridge σ :=
  if (b.world.debugger i.session).isTracked script then
    let (_, world) := b.world.executionOf i
    { b with world }.suspend i .load fun x => .scriptReady script x.handle x.stack.isEmpty
  else b

/-- A line of a visible script is about to be executed, and its thread may stop. -/
def startLine (b : Bridge σ) (i : Interpreter) (script : Script) (line : Nat) : Bridge σ :=
  if (b.world.debugger i.session).isTracked script && 1 ≤ line then
    match b.world.reachLine i script line with
    | (none, world) => { b with world }
    | (some reason, world) =>
      { b with world }.suspend i .line fun x => .suspended x.handle reason x.stack
  else b

/-- Makes a call of an interpreter thread. -/
def perform (b : Bridge σ) (i : Interpreter) (c : Call) : CallResult × Bridge σ :=
  match c with
  | .engineStarted => (.ok, b.fire i.session .engineStarted)
  | .engineFinished => (.ok, b.onWorld (·.finishEngine i.session))
  | .threadStarted =>
    let (x, world) := b.world.executionOf i
    (.ok, { b with world }.fire i.session (.threadCreated x.handle))
  | .threadFinished => (.ok, b.onWorld (·.finishThread i))
  | .scriptStarted script => (.ok, b.startScript i script)
  | .push a => (.ok, b.onWorld (·.modifyExecution i fun x => { x with stack := a :: x.stack }))
  | .pop =>
    let (a, world) := b.world.popActivation i
    (.popped a, { b with world })
  | .line script number => (.ok, b.startLine i script number)
  | .stack =>
    let (x, world) := b.world.executionOf i
    (.stack x.stack, { b with world })
  | .currentThread =>
    let (x, world) := b.world.executionOf i
    (.thread x.handle, { b with world })
  | .bind name content =>
    (.ok, b.modifyEngine i.session (Engine.bind · name content))
  | .check =>
    (if Engine.isStopped (b.engines.get i.session) then .stopped else .ok, b)

end Bridge

end DebugBridge
