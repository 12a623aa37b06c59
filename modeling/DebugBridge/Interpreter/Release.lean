import DebugBridge.Interpreter.Call
import DebugBridge.World

/-!
# Executions as they come and go

An execution is known from when its thread first needs it. A request to resume releases its thread
if that waits; a debugger that detaches releases all its threads and sends nothing any more.

## Main definitions

* `World.executionOf`: the execution of an interpreter thread;
* `World.resumeExecution`, `World.detach`: what releases threads.
-/

namespace DebugBridge

namespace World

/-- Says who acts from now on: an interpreter thread, or somebody else. -/
def setActor (w : World) (who : Option String) : World :=
  { w with journal := { w.journal with interpreter := who } }

/-- Puts the changed execution of a thread in the place of the old one. -/
def putExecution (w : World) (s : Nat) (x : Execution) : World :=
  w.modifyDebugger s (·.put x)

/-- The execution of an interpreter thread. At first sight it begins, under a handle of its own. -/
def executionOf (w : World) (i : Interpreter) : Execution × World :=
  match (w.debugger i.session).ofOwner? i.id with
  | some x => (x, w)
  | none =>
    let (number, w) := w.number
    let x := Execution.start i.id ⟨number, i.name⟩
    (x, w.modifyDebugger i.session (·.insert x))

/-- A thread leaves the call in which it waited. -/
def leaveCall (w : World) (s : Nat) (x : Execution) : World :=
  let actor := w.journal.interpreter
  let w := w.setActor x.handle.name
  let w := w.trace "runtime" s!"{x.handle.name} resumed ({x.resumeKind.name})"
  let w := w.fire s (.resumed x.handle x.resumeKind)
  w.setActor actor

/-- A request to resume reaches an execution. If its thread waits, it goes on at once. -/
def resumeExecution (w : World) (s : Nat) (kind : ResumeKind) (x : Execution) : World :=
  let resumed := x.resume w.marks kind
  let w := w.putExecution s resumed
  if x.waiting.isSome then w.leaveCall s resumed else w

/-- Leaves all interpreter threads alone: they are released, and nothing is sent any more. -/
def detach (w : World) (s : Nat) : World :=
  let silence := fun (d : Debugger) => { d with terminated := true, attached := false, table := [] }
  let w := w.modifyDebugger s silence
  let w := (w.debugger s).executions.foldl (fun w x => w.resumeExecution s .clientRequest x) w
  w.trace "runtime" "debugger detached"

end World

end DebugBridge
