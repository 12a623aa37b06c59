import DebugBridge.Bridge.State

/-!
# Requests served by a waiting thread

An interpreter thread that waits to be resumed answers for its stack: it lists frames and variables,
evaluates expressions and assigns variables. After an assignment the variables are reported, whether
it succeeded or not. What its engine refuses is logged and not answered.

## Main definitions

* `Bridge.serve`: serves one request;
* `Bridge.enqueue`: hands a request to the thread that it addresses.
-/

namespace DebugBridge

/-- Makes a variable of a reported one. -/
def Report.make (r : Report) : HeapM VariableId := do
  let x ← newVariable r.name (.binding none) r.content .detached
  match r.rendered with
  | some text => setRendered ((← get).bindings.get x).value text
  | none => pure ()
  return x

namespace Bridge

variable {σ : Type} [Inhabited σ] [Engine σ]

/-- The scope of a frame: its activation, at the line where it stands. -/
def scopeOf (b : Bridge σ) (frame : FrameRef) : Scope :=
  ⟨frame.activation, b.world.marks.lineOf frame.activation⟩

/-- Reports the variables of a frame. -/
def reportVariables (b : Bridge σ) (s : Nat) (frame : FrameRef) : Bridge σ :=
  match b.askEngine s (Engine.visible · (b.scopeOf frame)) with
  | (.error causes, b) => b.warn ("variables request: " ++ (Failure.engine causes).message)
  | (.ok reports, b) =>
    let (made, world) := b.world.onHeap (reports.mapM Report.make)
    { b with world }.fire s (.frameVariables frame made)

/-- Evaluates an expression in a frame. -/
def evaluate (b : Bridge σ) (s : Nat) (frame : FrameRef) (expression : String) :
    Evaluated × Bridge σ :=
  match b.askEngine s (Engine.evaluate · (b.scopeOf frame) expression) with
  | (.error failure, b) => (.error failure, b)
  | (.ok draft, b) =>
    let (content, world) := b.world.onHeap (realize draft)
    (.ok content, { b with world })

/-- Assigns the value of an expression to a variable of a frame, if there is a value. -/
def assign (b : Bridge σ) (s : Nat) (frame : FrameRef) (name expression : String) :
    Except Causes Unit × Bridge σ :=
  match b.evaluate s frame expression with
  | (.error failure, b) => (.error [failure.text], b)
  | (.ok content, b) => b.askEngine s (Engine.assign · (b.scopeOf frame) name content)

/-- Assigns the value of an expression to a variable of a frame and logs why that failed. -/
def tryAssign (b : Bridge σ) (s : Nat) (frame : FrameRef) (name expression : String) : Bridge σ :=
  match b.assign s frame name expression with
  | (.ok (), b) => b
  | (.error causes, b) =>
    let attempt := s!"could not change variable <{name}> to \"{expression}\""
    b.warn ("set variable request: " ++ (Failure.engine (attempt :: causes)).message)

/-- Serves a request on the waiting thread of an execution. -/
def serve (b : Bridge σ) (s : Nat) (x : Execution) (r : Request) : Bridge σ :=
  match r with
  | .getStackFrames _ => b.fire s (.stackFrames x.handle x.stack)
  | .getVariables frame => b.reportVariables s frame
  | .setVariable context _ name expression =>
    match b.world.frameOf context with
    | none => b.warn s!"set variable {name}: no stack frame context"
    | some frame => (b.tryAssign s frame name expression).reportVariables s frame
  | .evaluate expression frame _ listener =>
    let (result, b) := b.evaluate s frame expression
    b.fire s (.evaluated expression frame result listener)
  | r => b.trace "runtime" (r.text b.world.marks ++ " is not served by a suspended thread")

/-- Serves requests in their order. Each is taken from the execution just before it is served. -/
def serveAll (s : Nat) (x : Execution) : List Request → Bridge σ → Bridge σ
  | [], b => b
  | r :: rest, b =>
    let b := b.onWorld (·.putExecution s { x with pending := rest })
    serveAll s x rest (b.serve s x r)

/-- Hands a request to the thread with a handle. A thread that waits serves it at once, any other
when it next stops. -/
def enqueue (b : Bridge σ) (s : Nat) (handle : Handle) (r : Request) : Bridge σ :=
  match (b.world.debugger s).ofHandle? handle with
  | none =>
    b.trace "runtime" s!"drop {r.text b.world.marks}, unknown thread {handle.name}"
  | some x =>
    if x.waiting.isSome then b.actAs x.handle.name (·.serve s x r)
    else b.onWorld (·.putExecution s { x with pending := x.pending ++ [r] })

end Bridge

end DebugBridge
