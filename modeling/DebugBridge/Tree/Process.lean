import DebugBridge.Tree.Stack

/-!
# The process of a session

The process comes into being when the interpreter is first heard of, and each of its threads when
the handle of the thread is. A script that is ready waits for an answer: its breakpoints are sent to
the interpreter, and then its thread is resumed in the way that the options and the present step
ask for.

## Main definitions

* `ensureProcess`, `createThread`, `findOrCreateThread`;
* `loadResume`: how a thread is resumed that waits before a script;
* `scriptReady`, `threadTerminated`: the reports.
-/

namespace DebugBridge

/-- Makes the process, unless there is one. -/
def ensureProcess (s : Nat) : Act Unit := do
  match ((← get).session s).process with
  | some _ => return
  | none =>
    change (·.modifySession s fun session => { session with process := some .start })
    notify s (.created .process)

/-- The number of the thread with a handle. -/
def Session.findThread? (session : Session) (handle : Handle) : Option Nat :=
  session.threads.findIdx? fun t => t.handle.id = handle.id

/-- Adds a thread with a handle, and gives its number. -/
def createThread (s : Nat) (handle : Handle) : Act Nat := do
  let i := ((← get).session s).threads.length
  let add := fun (p : Process) => { p with threads := p.threads ++ [.start handle] }
  change (·.modifySession s fun session => { session with process := session.process.map add })
  notify s (.created (.thread i))
  return i

/-- The number of the thread with a handle, added at first sight, and whether it was added. -/
def findOrCreateThread (s : Nat) (handle : Handle) : Act (Nat × Bool) := do
  match ((← get).session s).findThread? handle with
  | some i => return (i, false)
  | none => return (← createThread s handle, true)

/-- The number of the thread with a handle, in a process that is made if need be. -/
def threadOf (s : Nat) (handle : Handle) : Act Nat := do
  ensureProcess s
  return (← findOrCreateThread s handle).1

/-! ### Scripts that are ready -/

/-- Whether the options ask to stop at the first line of a script. -/
def LaunchOptions.stopsAt (options : LaunchOptions) (script : Script) (root : Bool) : Bool :=
  (options.suspendOnScriptLoad && (options.showDynamicCode || !script.dynamic))
    || (root && options.suspendOnStartup)

/-- How a thread is resumed that waits before a script: into the script if the options ask for it,
and otherwise so that a step under way goes on. -/
def loadResume (options : LaunchOptions) (script : Script) (root stepping : Bool) : ResumeKind :=
  if options.stopsAt script root then .stepInto
  else if stepping then .unspecified
  else .clientRequest

/-- Sends all breakpoints of the resource of a script to the interpreter. -/
def applyBreakpoints (s : Nat) (script : Script) : Act Unit := do
  match script.resource with
  | none => return
  | some resource =>
    let w ← get
    let manager := w.managers.get (w.session s).manager
    let here := manager.breakpoints.filter fun b => b.resource.same resource
    here.forM fun b => post s (.breakpoint script b .add)

/-- A script is ready, and its thread waits. -/
def scriptReady (s : Nat) (script : Script) (handle : Handle) (root : Bool) : Act Unit := do
  let (i, created) ← findOrCreateThread s handle
  unless created do notify s (.changed (.thread i) .content)
  let register := fun (session : Session) =>
    { session with scripts := session.scripts.insert script }
  change (·.modifySession s register)
  applyBreakpoints s script
  let w ← get
  let stepping := (w.thread s i).state = .stepping
  requestResume s i (loadResume (w.session s).options script root stepping)

/-! ### Threads that are gone -/

/-- A thread was reported to be gone. -/
def threadTerminated (s : Nat) (handle : Handle) : Act Unit := do
  let (i, _) ← findOrCreateThread s handle
  unless ((← get).thread s i).isTerminated do
    change (·.modifyThread s i Thread.terminate)
    notify s (.terminated (.thread i))

/-! ### Attributes -/

/-- Sets an attribute of the process. The front end is told if that changes it. -/
def setAttribute (s : Nat) (key value : String) : Act Unit := do
  match ((← get).session s).process with
  | none => return
  | some p =>
    let others := p.attributes.filter fun e => e.1 ≠ key
    let p' := { p with attributes := (key, value) :: others }
    change (·.modifySession s fun session => { session with process := some p' })
    unless p.attributes.lookup key = some value do notify s (.changed .process .state)

end DebugBridge
