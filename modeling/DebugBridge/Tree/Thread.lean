import DebugBridge.Message

/-!
# Threads and their frames

A thread of the model follows the reports about one interpreter thread. It is running, suspended,
stepping or, for good, terminated. A frame of the thread wraps one activation; it stays the same
frame as long as its activation stays on the stack.

## Main definitions

* `Thread`, with its transitions `suspend`, `resume` and `terminate`;
* `FrameChange.of`: how a reported stack changes the frames.
-/

namespace DebugBridge

/-- The state of a thread. -/
inductive ThreadState where
  | running | suspended | stepping | terminated
deriving DecidableEq, Repr

/-- The name of a state. -/
def ThreadState.name : ThreadState → String
  | .running => "RUNNING"
  | .suspended => "SUSPENDED"
  | .stepping => "STEPPING"
  | .terminated => "TERMINATED"

/-- A thread of the model. -/
structure Thread where
  handle : Handle
  state : ThreadState
  /-- Why the thread was last suspended. -/
  reason : Option SuspendReason
  /-- The frames of the last reported stack, innermost first. -/
  frames : List FrameRef
deriving DecidableEq, Repr

namespace Thread

/-- A thread that was just heard of. -/
def start (handle : Handle) : Thread :=
  ⟨handle, .running, none, []⟩

/-- The name of a thread for people. -/
def name (t : Thread) : String :=
  "Thread: " ++ t.handle.name

/-- The frames that a front end sees: those of a thread that stands still or is between two
steps. -/
def visibleFrames (t : Thread) : List FrameRef :=
  match t.state with
  | .suspended | .stepping => t.frames
  | .running | .terminated => []

/-- Whether a thread may be asked to suspend. -/
def canSuspend (t : Thread) : Bool :=
  t.state = .running || t.state = .stepping

/-- Whether a thread may be asked to resume or step. -/
def canResume (t : Thread) : Bool :=
  t.state = .suspended

/-- Whether a thread was reported to be gone. -/
def isTerminated (t : Thread) : Bool :=
  t.state = .terminated

/-- A thread after it was reported to be suspended. -/
def suspend (t : Thread) (reason : SuspendReason) : Thread :=
  { t with state := .suspended, reason := some reason }

/-- A thread after it was reported to go on. Its frames stay until the next stack is reported. -/
def resume (t : Thread) (kind : ResumeKind) : Thread :=
  { t with state := if kind.isStep then .stepping else .running }

/-- A thread that is gone. It keeps no frames. -/
def terminate (t : Thread) : Thread :=
  { t with state := .terminated, frames := [] }

end Thread

/-! ### Reported stacks -/

/-- How a reported stack changes the frames of a thread. -/
structure FrameChange where
  /-- The frames of the new stack. -/
  frames : List FrameRef
  /-- Frames whose activation was on the stack before. -/
  reused : List FrameRef
  /-- Frames of new activations. -/
  created : List FrameRef
  /-- Frames whose activation left the stack. -/
  gone : List FrameRef
deriving DecidableEq, Repr

namespace FrameChange

/-- The frame of an activation, and the other frames. -/
def pick? (a : Activation) : List FrameRef → Option (FrameRef × List FrameRef)
  | [] => none
  | f :: rest =>
    if f.activation.id = a.id then some (f, rest)
    else (pick? a rest).map fun (found, others) => (found, f :: others)

/-- Goes through a stack, given the frames not used yet and how many frames the session has. -/
def of (session : Nat) (handle : Handle) (old : List FrameRef) (count : Nat) :
    List Activation → FrameChange
  | [] => ⟨[], [], [], old⟩
  | a :: stack =>
    match pick? a old with
    | some (f, others) =>
      let change := of session handle others count stack
      { change with frames := f :: change.frames, reused := f :: change.reused }
    | none =>
      let f : FrameRef := ⟨session, count, handle, a⟩
      let change := of session handle old (count + 1) stack
      { change with frames := f :: change.frames, created := f :: change.created }

/-- How many frames there are of each sort. -/
def summary (c : FrameChange) : String :=
  s!"{c.frames.length} frames "
    ++ s!"({c.reused.length} reused, {c.created.length} new, {c.gone.length} gone)"

end FrameChange

end DebugBridge
