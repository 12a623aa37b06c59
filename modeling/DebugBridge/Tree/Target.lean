import DebugBridge.Breakpoints
import DebugBridge.Tree.Process

/-!
# Sessions from start to end

A session subscribes to its breakpoint manager when it starts and ends once: when the interpreter
has terminated, or when the user disconnects. Its threads and its process end with it.

## Main definitions

* `startSession`: a new session;
* `endSession`: ends a session;
* `disconnect`: leaves the interpreter running and ends the session;
* `onlyThread`: what commands on the whole target address.
-/

namespace DebugBridge

/-- Starts a session with a breakpoint manager, and tells its front end. -/
def startSession (options : LaunchOptions) (manager : Nat) (observed : Bool) : Act Nat := do
  let w ← get
  let s := w.sessions.size
  let subscription := (w.manager manager).nextSubscription
  let session : Session :=
    { alive := true
      options := options
      observed := observed
      attached := false
      terminated := false
      manager := manager
      subscription := some subscription
      scripts := .empty
      process := none
      frames := ∅
      mailbox := .closed
      debugger := none }
  change fun w =>
    { w with sessions := w.sessions.push session }.modifyManager manager
      (·.subscribe (.session s))
  notify s (.created .target)
  return s

/-- Gives a session a debugger that follows its interpreter threads. -/
def World.addDebugger (w : World) (s : Nat) : World :=
  w.modifySession s fun session =>
    { session with debugger := some (.start session.options.showDynamicCode false) }

/-- Joins both sides of a session by a mailbox. Without a debugger, the far side only takes requests
in. -/
def World.joinSides (w : World) (s : Nat) : World :=
  let w := w.modifySession s fun session => { session with attached := true, mailbox := ∅ }
  w.modifyDebugger s fun d => { d with attached := true }

/-- A session that nobody holds any more. What was on its way is lost. -/
def World.dropSession (w : World) (s : Nat) : World :=
  w.modifySession s fun session => { session with alive := false, mailbox := .closed }

/-- Everything of a session that ends with it. -/
def Session.ended (session : Session) : Session :=
  let close := fun (p : Process) =>
    { p with threads := p.threads.map Thread.terminate, terminated := true }
  { session with
    attached := false
    terminated := true
    subscription := none
    scripts := .empty
    process := session.process.map close }

/-- Ends a session, unless it has ended. Either way it is not attached any more. -/
def endSession (s : Nat) : Act Unit := do
  let session := (← get).session s
  if session.terminated then
    change (·.modifySession s fun session => { session with attached := false })
  else
    if let some number := session.subscription then
      change (·.modifyManager session.manager (·.unsubscribe number))
    change (·.modifySession s Session.ended)
    notify s (.terminated .target)

/-- Leaves the interpreter: its breakpoints are removed and its suspended threads resumed, and the
session ends while the script keeps running. -/
def disconnect (s : Nat) : Act Unit := do
  let session := (← get).session s
  unless session.terminated do
    post s .removeAllBreakpoints
    for (t, i) in session.threads.zipIdx do
      if t.state = .suspended then requestResume s i .clientRequest
    post s .disconnect
    endSession s

/-! ### Commands on the whole target -/

/-- The only thread of a session. A session with several threads leaves it to the user to choose
one. -/
def Session.onlyThread? (session : Session) : Option Nat :=
  if session.threads.length = 1 then some 0 else none

/-- Does something with the only thread of a session, if it has one. -/
def onlyThread (s : Nat) (act : Nat → Act Unit) : Act Unit := do
  match ((← get).session s).onlyThread? with
  | some i => act i
  | none => return

/-- Whether a property holds of the only thread of a session. -/
def Session.ofOnlyThread (session : Session) (p : Thread → Bool) : Bool :=
  match session.onlyThread? with
  | some i => p (session.thread i)
  | none => false

/-- Memory blocks are not available. -/
def memoryBlock (_start _length : Nat) : Except Failure ByteArray :=
  .error (.memoryUnsupported targetName)

end DebugBridge
