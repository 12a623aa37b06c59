import DebugBridge.Bridge.Serving

/-!
# Requests as the interpreter side takes them

The debugger of a session changes its breakpoints, releases threads and asks threads to stop by
itself; what concerns the stack of one thread it leaves to that thread. Once it is terminated it
takes nothing any more.

## Main definitions

* `Bridge.receive`: the debugger of a session takes a request.
-/

namespace DebugBridge

namespace World

/-- Resumes the thread with a handle, or all threads. -/
def resume (w : World) (s : Nat) (kind : ResumeKind) : Option Handle → World
  | none => (w.debugger s).executions.foldl (fun w x => w.resumeExecution s kind x) w
  | some handle =>
    match (w.debugger s).ofHandle? handle with
    | some x => w.resumeExecution s kind x
    | none => w.trace "runtime" ("resume request for unknown thread " ++ handle.name)

/-- Asks the thread with a handle, or all threads, to stop at their next line. -/
def askToSuspend (w : World) (s : Nat) (thread : Option Handle) : World :=
  let isMeant := fun (x : Execution) =>
    match thread with
    | none => true
    | some handle => x.handle.id = handle.id
  let ask := fun (x : Execution) => if isMeant x then { x with suspendRequested := true } else x
  w.modifyDebugger s fun d => { d with executions := d.executions.map ask }

/-- Adds or removes a breakpoint of a script. -/
def updateTable (w : World) (s : Nat) (script : Script) (b : Breakpoint) (mode : BreakpointMode) :
    World :=
  w.modifyDebugger s fun d =>
    match mode with
    | .add => { d with table := d.table.add script b }
    | .remove => { d with table := d.table.remove script b }

/-- Removes all breakpoints. -/
def clearTable (w : World) (s : Nat) : World :=
  w.modifyDebugger s fun d => { d with table := [] }

end World

namespace Bridge

variable {σ : Type} [Inhabited σ] [Engine σ]

/-- Ends the engine of a session and tells the model so, even if the engine refuses. -/
def terminate (b : Bridge σ) (s : Nat) : Bridge σ :=
  let (result, b) := (b.onWorld (·.clearTable s)).askEngine s Engine.terminate
  let b := match result with
    | .ok () => b
    | .error causes => b.warn ("terminate request: " ++ (Failure.engine causes).message)
  (b.fire s .engineTerminated).onWorld (·.detach s)

/-- Does what a request asks for. -/
def obey (b : Bridge σ) (s : Nat) (r : Request) : Bridge σ :=
  match r with
  | .resume thread kind => b.onWorld (·.resume s kind thread)
  | .suspend thread => b.onWorld (·.askToSuspend s thread)
  | .breakpoint script point mode => b.onWorld (·.updateTable s script point mode)
  | .removeAllBreakpoints => b.onWorld (·.clearTable s)
  | .terminate => b.terminate s
  | .disconnect => b.onWorld (·.detach s)
  | .getStackFrames thread => b.enqueue s thread r
  | .getVariables frame => b.enqueue s frame.handle r
  | .setVariable context _ _ _ =>
    match b.world.frameOf context with
    | some frame => b.enqueue s frame.handle r
    | none =>
      b.trace "runtime" s!"drop {r.text b.world.marks}, no stack frame context"
  | .evaluate _ _ thread _ => b.enqueue s thread r

/-- The debugger of a session takes a request, unless it is terminated. -/
def receive (b : Bridge σ) (s : Nat) (r : Request) : Bridge σ :=
  if (b.world.debugger s).terminated then b
  else (b.trace "runtime" ("process " ++ r.text b.world.marks)).obey s r

end Bridge

end DebugBridge
