import DebugBridge.Data.Assignment
import DebugBridge.Dispatch.Mailbox
import DebugBridge.Interpreter.Execution
import DebugBridge.Journal
import DebugBridge.Launch

/-!
# Sessions and what they share

The world holds the sessions, the breakpoint managers that they share, the heap of variables and
values, and the journal. An operation that may call a front end is an `Act`: a front end can fail,
which breaks the operation off and leaves the world as it was at that moment.

A value reaches its session through a frame only while somebody holds the frame: its thread has it
on the stack, a client keeps it, or a message mentions it that is on its way or was received.

## Main definitions

* `Session`, `BreakpointManager`, `World`;
* `Act`: operations that may call a front end;
* `World.reach`: the session that a parent leads to;
* `World.post`, `World.fire`: requests of the model and events of the interpreter.
-/

namespace DebugBridge

/-! ### Sessions -/

/-- What a session knows of a frame. -/
structure FrameState where
  /-- The variables as they were last reported, in the order of their names. -/
  known : List VariableId
  /-- Whether the variables have to be asked for again. -/
  dirty : Bool
deriving DecidableEq, Repr

instance : Inhabited FrameState := ⟨⟨[], true⟩⟩

/-- The script execution of a session as a whole. -/
structure Process where
  threads : List Thread
  attributes : List (String × String)
  terminated : Bool
deriving DecidableEq, Repr

/-- A process without threads. -/
def Process.start : Process := ⟨[], [], false⟩

/-- How many threads are not terminated. -/
def Process.liveThreads (p : Process) : Nat :=
  (p.threads.filter fun t => !t.isTerminated).length

/-- A debug session: its model, the mailbox between its two sides, and its interpreter side. -/
structure Session where
  /-- Whether the client still holds the session. -/
  alive : Bool
  options : LaunchOptions
  /-- Whether a front end listens. -/
  observed : Bool
  /-- Whether requests of the model reach the mailbox. -/
  attached : Bool
  terminated : Bool
  /-- The number of the manager of its breakpoints. -/
  manager : Nat
  /-- The number of its subscription with the manager. -/
  subscription : Option Nat
  scripts : Registry
  /-- The process, from when the interpreter is first heard of. -/
  process : Option Process
  frames : Arena FrameState
  mailbox : Mailbox Message
  /-- The interpreter side, unless it only takes requests in. -/
  debugger : Option Debugger

/-- A session of which nothing is left. -/
def Session.absent : Session :=
  ⟨false, .off, false, false, true, 0, none, .empty, none, ∅, .closed, none⟩

instance : Inhabited Session := ⟨.absent⟩

/-- The threads of a session, in the order of their creation. -/
def Session.threads (s : Session) : List Thread :=
  match s.process with
  | some p => p.threads
  | none => []

/-- The thread with a number. -/
def Session.thread (s : Session) (i : Nat) : Thread :=
  (s.threads[i]?).getD (.start ⟨0, ""⟩)

/-- Changes the thread with a number. -/
def Session.modifyThread (s : Session) (i : Nat) (f : Thread → Thread) : Session :=
  { s with process := s.process.map fun p => { p with threads := p.threads.modify i f } }

/-! ### Breakpoint managers -/

/-- Who is told of the breakpoints of a manager. -/
inductive Subscriber where
  | session (number : Nat)
  | client (number : Nat)
deriving DecidableEq, Repr

/-- A listener of a client, held as long as the client wants. -/
structure ClientListener where
  name : String
  held : Bool
  /-- The number of its subscription with the manager it was added to. -/
  subscription : Nat
deriving DecidableEq, Repr, Inhabited

/-- The breakpoints that the user set, and who is told of them. -/
structure BreakpointManager where
  breakpoints : List Breakpoint
  /-- The subscriptions, by number and in that order. -/
  subscribers : List (Nat × Subscriber)
  nextSubscription : Nat
deriving DecidableEq, Repr

instance : Inhabited BreakpointManager := ⟨⟨[], [], 0⟩⟩

/-! ### The world -/

/-- A request that reached the interpreter side of a session, with its text then. -/
structure Delivery where
  session : Nat
  request : Request
  text : String

/-- All that sessions share. -/
structure World where
  heap : Heap
  marks : Marks
  /-- The next number for a script, a handle, an activation or a breakpoint. -/
  nextNumber : Nat
  managers : Arena BreakpointManager
  listeners : Arena ClientListener
  sessions : Arena Session
  /-- The frames that clients keep. -/
  keptFrames : List FrameRef
  /-- The threads that clients keep, by session and number. -/
  keptThreads : List (Nat × Nat)
  /-- The frame of the event that is handled now. -/
  inHand : Option FrameRef
  /-- The requests that reached an interpreter side and were not collected yet, oldest first. -/
  received : Array Delivery
  journal : Journal
  /-- How front ends react: the text of a failure, from all notifications before and this one. -/
  reaction : Array Note → Note → Option String

/-- A world without sessions. -/
def World.start : World :=
  { heap := ∅
    marks := ∅
    nextNumber := 0
    managers := ∅
    listeners := ∅
    sessions := ∅
    keptFrames := []
    keptThreads := []
    inHand := none
    received := #[]
    journal := ∅
    reaction := fun _ _ => none }

/-- Operations that may call a front end. The failure is the text of what a front end failed
with. -/
abbrev Act := EStateM String World

namespace World

/-- The session with a number. -/
def session (w : World) (s : Nat) : Session :=
  w.sessions.get s

/-- Changes a session. -/
def modifySession (w : World) (s : Nat) (f : Session → Session) : World :=
  { w with sessions := w.sessions.modify s f }

/-- A change of a session shows in that session and in no other. -/
theorem session_modifySession (w : World) (s t : Nat) (f : Session → Session) :
    (w.modifySession s f).session t = if s = t then f (w.session s) else w.session t :=
  Arena.get_modify w.sessions s t f

/-- A new number for something that is told apart by its number. -/
def number (w : World) : Nat × World :=
  (w.nextNumber, { w with nextNumber := w.nextNumber + 1 })

/-- Runs an operation of the heap. -/
def onHeap {α : Type} (w : World) (op : HeapM α) : α × World :=
  let (a, heap) := op.run w.heap
  (a, { w with heap })

/-- Writes a line to the log. -/
def log (w : World) (level : Level) (topic text : String) : World :=
  { w with journal := w.journal.log level topic text }

/-- Writes a line of the event trace. -/
def trace (w : World) (topic text : String) : World :=
  w.log .debug topic text

/-- A line in the log changes no session. -/
@[simp] theorem session_log (w : World) (level : Level) (topic text : String) (s : Nat) :
    (w.log level topic text).session s = w.session s :=
  rfl

/-- A line in the trace changes no session. -/
@[simp] theorem session_trace (w : World) (topic text : String) (s : Nat) :
    (w.trace topic text).session s = w.session s :=
  rfl

/-! ### Who holds a frame -/

/-- The frames that a message mentions. -/
def framesOf : Message → List FrameRef
  | .event (.frameVariables frame _) => [frame]
  | .event (.evaluated _ frame _ _) => [frame]
  | .request (.getVariables frame) => [frame]
  | .request (.evaluate _ frame _ _) => [frame]
  | _ => []

/-- Whether a frame is on the stack of a thread that the session or a client keeps. -/
def isOnStack (w : World) (f : FrameRef) : Bool :=
  (w.session f.session).threads.zipIdx.any fun (t, i) =>
    ((w.session f.session).alive || w.keptThreads.contains (f.session, i)) && t.frames.contains f

/-- Whether an envelope holds a message that mentions a frame. -/
def isInside (f : FrameRef) : Envelope Message → Bool
  | .message m => (framesOf m).contains f
  | .shutdown => false

/-- Whether a message of a session mentions a frame, be it on its way or put off by a thread. What
is on its way is lost with the session, but what a thread put off stays with the thread. -/
def isMentioned (s : Session) (f : FrameRef) : Bool :=
  let putOff : List Request := match s.debugger with
    | some d => d.executions.flatMap Execution.pending
    | none => []
  s.mailbox.queue.any (isInside f) || putOff.any (fun r => (framesOf (.request r)).contains f)

/-- Whether a request that was received mentions a frame. A debugger has done with a request by
then; where there is none, the request is kept until it is collected. -/
def isReceived (w : World) (f : FrameRef) : Bool :=
  w.received.any fun d =>
    (w.session d.session).debugger.isNone && (framesOf (.request d.request)).contains f

/-- Whether somebody holds a frame. -/
def isHeld (w : World) (f : FrameRef) : Bool :=
  w.keptFrames.contains f || w.inHand == some f || w.isOnStack f
    || w.sessions.cells.any (isMentioned · f) || w.isReceived f

/-- The frame that a parent is, if it is still held. -/
def frameOf (w : World) : Parent → Option FrameRef
  | .frame f => if w.isHeld f then some f else none
  | _ => none

/-- The session that a parent leads to. -/
def reach (w : World) : Parent → Option Nat
  | .detached => none
  | .target s => if (w.session s).alive then some s else none
  | .frame f => if w.isHeld f && (w.session f.session).alive then some f.session else none

/-! ### Messages -/

/-- The frame that a request is about, as far as it is still held. -/
def frameAbout (w : World) : Request → Option FrameRef
  | .getVariables frame => some frame
  | .evaluate _ frame _ _ => some frame
  | .setVariable context _ _ _ => w.frameOf context
  | _ => none

/-- Notes that a request has reached the interpreter side. -/
def noteReceived (w : World) (s : Nat) (r : Request) : World :=
  { w with received := w.received.push ⟨s, r, r.text w.marks⟩ }

/-- Reads requests that were received one after the other, each with the frame that it is about.
Those that are read are not held any more. -/
def readReceived (w : World) : List Delivery → List (Delivery × Option FrameRef)
  | [] => []
  | d :: rest =>
    let w := { w with received := (d :: rest).toArray }
    (d, w.frameAbout d.request) :: w.readReceived rest

/-- Puts a message into the mailbox of a session. -/
def send (w : World) (s : Nat) (m : Message) : World :=
  let w := w.trace "dispatcher" ("queue " ++ m.text w.marks)
  w.modifySession s fun session => { session with mailbox := session.mailbox.post m }

/-- Sends a request of the model to the interpreter side. A session that is not attached drops
it. -/
def post (w : World) (s : Nat) (r : Request) : World :=
  if !(w.session s).alive then w
  else if (w.session s).attached then w.send s (.request r)
  else w.trace "model" ("drop " ++ r.text w.marks ++ ", session detached")

/-- The interpreter side of a session. -/
def debugger (w : World) (s : Nat) : Debugger :=
  (w.session s).debugger.getD (.start false false)

/-- Changes the interpreter side of a session. -/
def modifyDebugger (w : World) (s : Nat) (f : Debugger → Debugger) : World :=
  w.modifySession s fun session => { session with debugger := session.debugger.map f }

/-- Sends an event of the interpreter to the model, while the interpreter side is attached. -/
def fire (w : World) (s : Nat) (e : Event) : World :=
  if (w.debugger s).attached then w.send s (.event e) else w

end World

/-! ### Steps of an operation -/

/-- Changes the world. -/
def change (f : World → World) : Act Unit :=
  modify f

/-- Runs an operation of the heap. -/
def onHeap {α : Type} (op : HeapM α) : Act α :=
  modifyGet fun w => w.onHeap op

/-- Sends a request of the model. -/
def post (s : Nat) (r : Request) : Act Unit :=
  change (·.post s r)

end DebugBridge
