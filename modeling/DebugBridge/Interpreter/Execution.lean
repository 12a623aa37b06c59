import DebugBridge.Message

/-!
# The execution of an interpreter thread

What the debugger knows of an interpreter thread: its call stack, where it last resumed and how, and
whether it waits to be resumed. From this it decides at each line whether the thread stops.

## Main definitions

* `Execution`, with `Execution.resume` and `Execution.stopReason`;
* `BreakpointTable`: the breakpoints of each script.
-/

namespace DebugBridge

/-- Where a thread waits to be resumed. -/
inductive Gate where
  /-- Before a script that was loaded. -/
  | load
  /-- At a line. -/
  | line
deriving DecidableEq, Repr

/-- The execution of an interpreter thread. -/
structure Execution where
  /-- The number of the interpreter thread. -/
  owner : Nat
  handle : Handle
  /-- The calls that are active, innermost first. -/
  stack : List Activation
  /-- How execution was last resumed, other than by itself. -/
  resumeKind : ResumeKind
  /-- The depth of the stack then. -/
  resumeDepth : Nat
  /-- The line of the innermost activation then, zero for an empty stack. -/
  resumeLine : Nat
  waiting : Option Gate
  suspendRequested : Bool
  /-- Requests that the thread will serve when it stops, oldest first. -/
  pending : List Request

namespace Execution

/-- The execution of a thread that was just heard of. -/
def start (owner : Nat) (handle : Handle) : Execution :=
  ⟨owner, handle, [], .unspecified, 0, 0, none, false, []⟩

/-- The line of the innermost activation, zero for an empty stack. -/
def topLine (x : Execution) (m : Marks) : Nat :=
  match x.stack with
  | [] => 0
  | a :: _ => m.lineOf a

/-- An execution after a request to resume. One that resumes by itself keeps the step mode from
before, anything else replaces it and notes where execution resumed. -/
def resume (x : Execution) (m : Marks) (kind : ResumeKind) : Execution :=
  if kind = .unspecified then { x with waiting := none }
  else
    { x with
      resumeKind := kind
      resumeDepth := x.stack.length
      resumeLine := x.topLine m
      waiting := none }

/-- A request to resume leaves nobody waiting. -/
@[simp] theorem waiting_resume (x : Execution) (m : Marks) (kind : ResumeKind) :
    (x.resume m kind).waiting = none := by
  unfold resume
  split <;> rfl

/-- A request to resume moves no call. -/
@[simp] theorem stack_resume (x : Execution) (m : Marks) (kind : ResumeKind) :
    (x.resume m kind).stack = x.stack := by
  unfold resume
  split <;> rfl

/-- Whether a step is complete at the present line. -/
def isStepEnd (x : Execution) (m : Marks) : Bool :=
  let depth := x.stack.length
  match x.resumeKind with
  | .stepInto => true
  | .stepOver =>
    depth < x.resumeDepth || (depth = x.resumeDepth && x.topLine m ≠ x.resumeLine)
  | .stepReturn => depth < x.resumeDepth
  | .unspecified | .clientRequest => false

/-- Why execution stops at the present line of the innermost activation, if it does: a breakpoint
comes before a request to suspend, and that before the end of a step. -/
def stopReason (x : Execution) (m : Marks) (onBreakpoint : Bool) : Option SuspendReason :=
  if x.stack.isEmpty then none
  else if onBreakpoint then some .breakpoint
  else if x.suspendRequested then some .clientRequest
  else if x.isStepEnd m then some .stepEnd
  else none

end Execution

/-! ### Breakpoints by script -/

/-- The breakpoints of each script, by the number of the script. -/
abbrev BreakpointTable := List (Nat × List Breakpoint)

namespace BreakpointTable

/-- The breakpoints of a script. -/
def find (table : BreakpointTable) (script : Script) : List Breakpoint :=
  (table.lookup script.id).getD []

/-- Replaces the breakpoints of a script. -/
def put (table : BreakpointTable) (script : Script) (breakpoints : List Breakpoint) :
    BreakpointTable :=
  (script.id, breakpoints) :: table.filter fun e => e.1 ≠ script.id

/-- Adds a breakpoint to those of a script. It may be there already. -/
def add (table : BreakpointTable) (script : Script) (b : Breakpoint) : BreakpointTable :=
  table.put script (table.find script ++ [b])

/-- Removes one occurrence of a breakpoint from those of a script. -/
def remove (table : BreakpointTable) (script : Script) (b : Breakpoint) : BreakpointTable :=
  table.put script ((table.find script).eraseP fun c => c.id = b.id)

/-- Whether an enabled breakpoint lies on a line of a script. -/
def isActive (table : BreakpointTable) (m : Marks) (script : Script) (line : Nat) : Bool :=
  (table.find script).any fun b => m.isEnabled b && b.line = line

end BreakpointTable

/-! ### The debugger -/

/-- The interpreter side of a session. -/
structure Debugger where
  /-- Whether generated code is followed too. -/
  showDynamicCode : Bool
  /-- Whether its events reach the dispatcher. -/
  attached : Bool
  terminated : Bool
  executions : List Execution
  table : BreakpointTable

namespace Debugger

/-- A debugger that follows no thread yet. -/
def start (showDynamicCode attached : Bool) : Debugger :=
  ⟨showDynamicCode, attached, false, [], []⟩

/-- Whether a script is visible to the user. -/
def isTracked (d : Debugger) (script : Script) : Bool :=
  !script.dynamic || d.showDynamicCode

/-- The execution of an interpreter thread. -/
def ofOwner? (d : Debugger) (owner : Nat) : Option Execution :=
  d.executions.find? fun x => x.owner = owner

/-- The execution of the thread with a handle. -/
def ofHandle? (d : Debugger) (handle : Handle) : Option Execution :=
  d.executions.find? fun x => x.handle.id = handle.id

/-- Replaces the execution of the thread that owns it. -/
def put (d : Debugger) (x : Execution) : Debugger :=
  { d with executions := d.executions.map fun y => if y.owner = x.owner then x else y }

/-- Adds the execution of a thread. -/
def insert (d : Debugger) (x : Execution) : Debugger :=
  { d with executions := d.executions ++ [x] }

/-- Forgets the execution of a thread. -/
def erase (d : Debugger) (owner : Nat) : Debugger :=
  { d with executions := d.executions.filter fun x => x.owner ≠ owner }

/-- Whether an interpreter thread waits to be resumed. -/
def isWaiting (d : Debugger) (owner : Nat) : Bool :=
  match d.ofOwner? owner with
  | some x => x.waiting.isSome
  | none => false

end Debugger

end DebugBridge
