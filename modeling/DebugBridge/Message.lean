import DebugBridge.Data.Heap
import DebugBridge.Marks

/-!
# Messages between the interpreter and the model

The interpreter reports events to the model of the session, and the model sends requests to the
interpreter. Both sets are closed. Each message has a text, which shows the lines and flags of the
moment at which it is asked for.

## Main definitions

* `Event`: what the interpreter reports;
* `Request`: what the model asks for;
* `Message`: either of them, with `Message.text`.
-/

namespace DebugBridge

/-- How a thread continues after it was suspended. -/
inductive ResumeKind where
  /-- Continues by itself; the step mode from before stays in force. -/
  | unspecified
  | clientRequest
  | stepInto
  | stepOver
  | stepReturn
deriving DecidableEq, Repr

namespace ResumeKind

/-- Whether the thread is to stop again after a step. -/
def isStep : ResumeKind → Bool
  | .stepInto | .stepOver | .stepReturn => true
  | .unspecified | .clientRequest => false

/-- The name of a kind. -/
def name : ResumeKind → String
  | .unspecified => "UNSPECIFIED"
  | .clientRequest => "CLIENT_REQUEST"
  | .stepInto => "STEP_INTO"
  | .stepOver => "STEP_OVER"
  | .stepReturn => "STEP_RETURN"

/-- All kinds. -/
def all : List ResumeKind :=
  [.unspecified, .clientRequest, .stepInto, .stepOver, .stepReturn]

end ResumeKind

/-- Why a thread was suspended. -/
inductive SuspendReason where
  | breakpoint | clientRequest | stepEnd
deriving DecidableEq, Repr

/-- The name of a reason. -/
def SuspendReason.name : SuspendReason → String
  | .breakpoint => "BREAKPOINT"
  | .clientRequest => "CLIENT_REQUEST"
  | .stepEnd => "STEP_END"

/-- All reasons. -/
def SuspendReason.all : List SuspendReason :=
  [.breakpoint, .clientRequest, .stepEnd]

/-- What happens to a breakpoint of the interpreter. -/
inductive BreakpointMode where
  | add | remove
deriving DecidableEq, Repr

/-- The name of a mode. -/
def BreakpointMode.name : BreakpointMode → String
  | .add => "add"
  | .remove => "remove"

/-- The result of an evaluation: a value, or why there is none. -/
abbrev Evaluated := Except EvalFailure Datum

/-- What the interpreter reports. Stacks are listed innermost first. -/
inductive Event where
  | engineStarted
  /-- A script is about to run, and its thread waits for a resume request. -/
  | scriptReady (script : Script) (thread : Handle) (root : Bool)
  | threadCreated (thread : Handle)
  | threadTerminated (thread : Handle)
  | suspended (thread : Handle) (reason : SuspendReason) (stack : List Activation)
  | resumed (thread : Handle) (kind : ResumeKind)
  | stackFrames (thread : Handle) (stack : List Activation)
  | frameVariables (frame : FrameRef) (reported : List VariableId)
  | evaluated (expression : String) (frame : FrameRef) (result : Evaluated) (listener : String)
  | engineTerminated

/-- What the model asks for. A request to suspend or resume without a thread means all threads. -/
inductive Request where
  | suspend (thread : Option Handle)
  | resume (thread : Option Handle) (kind : ResumeKind)
  | getStackFrames (thread : Handle)
  | getVariables (frame : FrameRef)
  | setVariable (context : Parent) (binding : VariableId) (name expression : String)
  | evaluate (expression : String) (frame : FrameRef) (thread : Handle) (listener : String)
  | breakpoint (script : Script) (point : Breakpoint) (mode : BreakpointMode)
  | removeAllBreakpoints
  | terminate
  | disconnect
deriving DecidableEq, Repr

/-- Anything that a dispatcher carries. -/
inductive Message where
  | event (content : Event)
  | request (content : Request)

/-- The text of an event. -/
def Event.text (m : Marks) : Event → String
  | .engineStarted => "engine started"
  | .scriptReady script thread root =>
    s!"script ready: {script.title} on {thread.name} (root: {boolText root})"
  | .threadCreated thread => "thread created: " ++ thread.name
  | .threadTerminated thread => "thread terminated: " ++ thread.name
  | .suspended thread reason stack =>
    s!"suspended: {thread.name} ({reason.name}) at {m.stackText stack}"
  | .resumed thread kind => s!"resumed: {thread.name} ({kind.name})"
  | .stackFrames thread stack => s!"stack frames: {thread.name} {m.stackText stack}"
  | .frameVariables frame reported =>
    s!"variables: {frame.activation.name} ({reported.length} items)"
  | .evaluated expression _ result _ =>
    match result with
    | .ok _ => "evaluated: " ++ expression
    | .error e => s!"evaluated: {expression} ({e.text})"
  | .engineTerminated => "engine terminated"

/-- The name of a thread, or of all of them. -/
def threadOrAll : Option Handle → String
  | some thread => thread.name
  | none => "all threads"

/-- The text of a request. -/
def Request.text (m : Marks) : Request → String
  | .suspend thread => "suspend request: " ++ threadOrAll thread
  | .resume thread kind => s!"resume request: {threadOrAll thread} ({kind.name})"
  | .getStackFrames thread => "stack frames request: " ++ thread.name
  | .getVariables frame => "variables request: " ++ frame.activation.name
  | .setVariable _ _ name expression => s!"set variable request: {name} = {expression}"
  | .evaluate expression _ thread _ => s!"evaluate request: {expression} on {thread.name}"
  | .breakpoint script point mode =>
    s!"breakpoint request: {mode.name} {m.breakpointText point} in {script.title}"
  | .removeAllBreakpoints => "remove all breakpoints request"
  | .terminate => "terminate request"
  | .disconnect => "disconnect request"

/-- The text of a message. -/
def Message.text (m : Marks) : Message → String
  | .event e => e.text m
  | .request r => r.text m

end DebugBridge
