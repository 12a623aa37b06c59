import DebugBridge.Tree.Frame

/-!
# Threads of a session

The reports of the interpreter move the threads of the model, and every stack that is reported
replaces the frames of its thread. The commands of a user move nothing: they ask the interpreter,
which answers with reports.

## Main definitions

* `setStack`, `threadSuspended`, `threadResumed`: the reports;
* `stackFrames`: the frames a front end sees;
* `requestResume`, `terminateThread`: what is asked of the interpreter.
-/

namespace DebugBridge

namespace World

/-- A thread of a session. -/
def thread (w : World) (s i : Nat) : Thread :=
  (w.session s).thread i

/-- Changes a thread of a session. -/
def modifyThread (w : World) (s i : Nat) (f : Thread → Thread) : World :=
  w.modifySession s fun session => session.modifyThread i f

/-- Puts the frames of a new stack in the place of those of a thread, and makes room for the
variables of the new frames. -/
def putFrames (w : World) (s i : Nat) (c : FrameChange) : World :=
  let w := c.created.foldl (fun w f => w.modifyFrame f fun _ => default) w
  w.modifyThread s i fun t => { t with frames := c.frames }

end World

/-! ### Reports -/

/-- Replaces the frames of a thread by those of a reported stack. Frames that stay are dirty from
now on. The front end is told of each frame that stays, is new or is gone, in this order, and at
last of the thread. A thread that is gone has no frames. -/
def setStack (s i : Nat) (stack : List Activation) : Act Unit := do
  let w ← get
  let t := w.thread s i
  if t.isTerminated then
    change (·.trace "model" (t.name ++ ": frames of terminated thread ignored"))
  else
    let c := FrameChange.of s t.handle t.frames (w.session s).frames.size stack
    change (·.trace "model" (t.name ++ ": " ++ c.summary))
    change (·.putFrames s i c)
    c.reused.forM setDirty
    c.created.forM fun f => notify s (.created (.frame f))
    c.gone.forM fun f => notify s (.terminated (.frame f))
    notify s (.changed (.thread i) .content)

/-- A thread was reported to be suspended. -/
def threadSuspended (s i : Nat) (reason : SuspendReason) (stack : List Activation) : Act Unit := do
  unless ((← get).thread s i).isTerminated do
    change (·.modifyThread s i (·.suspend reason))
    setStack s i stack
    notify s (.suspended i reason)

/-- A thread was reported to go on. -/
def threadResumed (s i : Nat) (kind : ResumeKind) : Act Unit := do
  unless ((← get).thread s i).isTerminated do
    change (·.modifyThread s i (·.resume kind))
    notify s (.resumed i kind)

/-! ### Queries and commands -/

/-- The frames of a thread, innermost first. If a suspended thread has none, they are requested, and
come with a change of the content of the thread. -/
def stackFrames (s i : Nat) : Act (List FrameRef) := do
  let t := (← get).thread s i
  if t.state = .suspended ∧ t.frames = [] then post s (.getStackFrames t.handle)
  return t.visibleFrames

/-- Asks the interpreter to let a thread go on. -/
def requestResume (s i : Nat) (kind : ResumeKind) : Act Unit := do
  post s (.resume (some ((← get).thread s i).handle) kind)

/-- Whether a thread may be terminated: it is the only one of its process that is left. -/
def World.canTerminateThread (w : World) (s i : Nat) : Bool :=
  let session := w.session s
  match session.process with
  | some p => !(session.thread i).isTerminated && session.alive && p.liveThreads = 1
  | none => false

/-- Asks the interpreter to terminate, if no other thread is left. -/
def terminateThread (s i : Nat) : Act (Except Failure Unit) := do
  let w ← get
  if w.canTerminateThread s i then
    post s .terminate
    return .ok ()
  else
    return .error (.terminateUnsupported (w.threadName s i))

end DebugBridge
