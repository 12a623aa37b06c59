import DebugBridge.Tree.Target

/-!
# Events of the interpreter

Every change of the model that comes from the interpreter enters here, one event at a time. A
session that is not attached does not listen.

## Main definitions

* `handleEvent`: applies an event to the model of a session;
* `assignVariable`: a new value for a variable, given as an expression;
* `evaluateIn`: a watch expression.
-/

namespace DebugBridge

/-- The activations of a stack that a session shows: all of them, or those of user code. -/
def LaunchOptions.shownStack (options : LaunchOptions) (stack : List Activation) :
    List Activation :=
  if options.showDynamicCode then stack else stack.filter fun a => !a.script.dynamic

/-- Holds a frame while an operation runs, whether it fails or not. -/
def withInHand {α : Type} (f : FrameRef) (act : Act α) : Act α := fun w =>
  match act { w with inHand := some f } with
  | .ok a w' => .ok a { w' with inHand := w.inHand }
  | .error e w' => .error e { w' with inHand := w.inHand }

/-- Hands the result of a watch expression to the listener that asked for it. -/
def deliverResult (listener : String) (result : WatchResult) : Act Unit := do
  let w ← get
  let shown ← onHeap (datumText (w.reach result.context) result.content)
  change (·.note (.watch listener result shown))

/-- Applies an event to the model. -/
def applyEvent (s : Nat) : Event → Act Unit
  | .engineStarted => ensureProcess s
  | .scriptReady script thread root => do
    ensureProcess s
    scriptReady s script thread root
  | .threadCreated thread => do
    let _ ← threadOf s thread
  | .threadTerminated thread => do
    ensureProcess s
    threadTerminated s thread
  | .suspended thread reason stack => do
    let stack := ((← get).session s).options.shownStack stack
    threadSuspended s (← threadOf s thread) reason stack
  | .resumed thread kind => do
    threadResumed s (← threadOf s thread) kind
  | .stackFrames thread stack => do
    let stack := ((← get).session s).options.shownStack stack
    setStack s (← threadOf s thread) stack
  | .frameVariables frame reported => withInHand frame (setVariables frame reported)
  | .evaluated expression frame result listener => do
    unless ((← get).session s).threads.isEmpty do
      let result := WatchResult.of expression result (.frame frame)
      withInHand frame (deliverResult listener result)
  | .engineTerminated => endSession s

/-- Handles an event that reached a session. -/
def handleEvent (s : Nat) (e : Event) : Act Unit := do
  if ((← get).session s).attached then
    change fun w => w.trace "model" ("process " ++ e.text w.marks)
    applyEvent s e

/-! ### Values -/

/-- Assigns an expression to a variable. A binding is changed by the interpreter, and its new value
comes with a later event; a slot of an object is written at once. -/
def assignVariable (x : VariableId) (expression : String) : Act (Except Failure Unit) := do
  let w ← get
  let binding := w.heap.bindings.get x
  match binding.origin.slot? with
  | none =>
    match w.reach binding.parent with
    | none => return .error .sessionTerminated
    | some s =>
      post s (.setVariable binding.parent x binding.name expression)
      return .ok ()
  | some (owner, slot, type) =>
    match ← onHeap (assignSlot x owner slot type expression) with
    | .error failure => return .error failure
    | .ok () =>
      match w.frameOf binding.parent with
      | some f => frameChanged f .content
      | none => pure ()
      return .ok ()

/-- Asks for the evaluation of a watch expression. Only frames are contexts. -/
def evaluateIn (expression : String) (context : Element) (listener : String) :
    Act (Except Failure Unit) := do
  match context with
  | .frame f =>
    if ((← get).session f.session).alive then
      post f.session (.evaluate expression f f.handle listener)
      return .ok ()
    else return .error .sessionTerminated
  | _ => return .error .unsupportedContext

end DebugBridge
