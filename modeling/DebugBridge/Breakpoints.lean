import DebugBridge.World

/-!
# Breakpoints of the user

A manager keeps the breakpoints that the user set and tells its subscribers of every change. A
session that is told sends the change on to its interpreter, for the script that it knows by the
resource of the breakpoint.

## Main definitions

* `addBreakpoint`, `removeBreakpoint`, `enableBreakpoint`: what a user does;
* `subscribe`, `unsubscribe`;
* `World.scriptFor?`: the script a breakpoint belongs to;
* `World.routeBreakpoint`: a change on its way to the interpreter.
-/

namespace DebugBridge

namespace BreakpointManager

/-- Whether a breakpoint is registered. -/
def has (m : BreakpointManager) (b : Breakpoint) : Bool :=
  m.breakpoints.any fun c => c.id = b.id

/-- A breakpoint that is registered has the number of one in the list. -/
theorem has_iff (m : BreakpointManager) (b : Breakpoint) :
    m.has b = true ↔ ∃ c ∈ m.breakpoints, c.id = b.id := by
  simp [has]

/-- The breakpoints of a resource. -/
def on (m : BreakpointManager) (resource : Resource) : List Breakpoint :=
  m.breakpoints.filter fun b => b.resource.same resource

/-- Adds a subscriber under the next number. -/
def subscribe (m : BreakpointManager) (who : Subscriber) : BreakpointManager :=
  { m with
    subscribers := m.subscribers ++ [(m.nextSubscription, who)]
    nextSubscription := m.nextSubscription + 1 }

/-- Removes the subscriber with a number. -/
def unsubscribe (m : BreakpointManager) (number : Nat) : BreakpointManager :=
  { m with subscribers := m.subscribers.filter fun e => e.1 ≠ number }

end BreakpointManager

namespace World

/-- A manager. -/
def manager (w : World) (m : Nat) : BreakpointManager :=
  w.managers.get m

/-- Changes a manager. -/
def modifyManager (w : World) (m : Nat) (f : BreakpointManager → BreakpointManager) : World :=
  { w with managers := w.managers.modify m f }

/-! ### Routing -/

/-- The script that a breakpoint belongs to in a session: the one that was last ready for its
resource, or else that of the first frame with the resource, by thread and innermost first. -/
def scriptFor? (w : World) (s : Nat) (b : Breakpoint) : Option Script :=
  let session := w.session s
  match session.scripts.find? b.resource with
  | some script => some script
  | none =>
    let frames := session.threads.flatMap Thread.visibleFrames
    (frames.map fun f => f.activation.script).find? fun script =>
      match script.resource with
      | some resource => resource.same b.resource
      | none => false

/-- What a change means for the interpreter. A breakpoint that was switched on or off is taken out
and put back. -/
def modesOf : BreakpointChange → List BreakpointMode
  | .added => [.add]
  | .removed => [.remove]
  | .changed => [.remove, .add]

/-- Sends a change of a breakpoint on to the interpreter of a session. -/
def routeBreakpoint (w : World) (s : Nat) (b : Breakpoint) (c : BreakpointChange) : World :=
  if (w.session s).terminated then w
  else
    match w.scriptFor? s b with
    | some script => (modesOf c).foldl (fun w mode => w.post s (.breakpoint script b mode)) w
    | none =>
      w.trace "model" ("breakpoint " ++ w.marks.breakpointText b
        ++ " not routed, script not loaded")

/-! ### Subscribers -/

/-- Whether a subscriber is still held by anybody. -/
def isLive (w : World) : Subscriber → Bool
  | .session s => (w.session s).alive
  | .client l => (w.listeners.get l).held

/-- Tells one subscriber of a change. -/
def tell (w : World) (b : Breakpoint) (c : BreakpointChange) : Subscriber → World
  | .session s => w.routeBreakpoint s b c
  | .client l =>
    let n : Note := .breakpoint (w.listeners.get l).name c (w.marks.breakpointText b)
    { w with journal := w.journal.note n }

/-- Forgets the subscribers of a manager that nobody holds, and tells the others of a change. -/
def announce (w : World) (m : Nat) (b : Breakpoint) (c : BreakpointChange) : World :=
  let live := (w.manager m).subscribers.filter fun e => w.isLive e.2
  let w := w.modifyManager m fun manager => { manager with subscribers := live }
  live.foldl (fun w e => w.tell b c e.2) w

/-- Adds a listener of a client to a manager, and gives its number. -/
def addListener (w : World) (m : Nat) (name : String) : Nat × World :=
  let l : ClientListener := ⟨name, true, (w.manager m).nextSubscription⟩
  let number := w.listeners.size
  let w := { w with listeners := w.listeners.push l }
  (number, w.modifyManager m (·.subscribe (.client number)))

/-- Ends, at a manager, the subscription with the number of a client's listener. Every manager
numbers its own subscriptions, so at a manager that the listener was not added to this may be the
subscription of another. -/
def removeListener (w : World) (m number : Nat) : World :=
  w.modifyManager m (·.unsubscribe (w.listeners.get number).subscription)

/-- A listener that its client does not hold any more. -/
def dropListener (w : World) (number : Nat) : World :=
  { w with listeners := w.listeners.modify number fun l => { l with held := false } }

/-! ### What a user does -/

/-- Registers a breakpoint, unless it is registered. -/
def addBreakpoint (w : World) (m : Nat) (b : Breakpoint) : World :=
  if (w.manager m).has b then w
  else
    let add := fun (manager : BreakpointManager) =>
      { manager with breakpoints := manager.breakpoints ++ [b] }
    (w.modifyManager m add).announce m b .added

/-- Takes a breakpoint out, and tells whether it was registered. -/
def removeBreakpoint (w : World) (m : Nat) (b : Breakpoint) : Bool × World :=
  if (w.manager m).has b then
    let remove := fun (manager : BreakpointManager) =>
      { manager with breakpoints := manager.breakpoints.filter fun c => c.id ≠ b.id }
    (true, (w.modifyManager m remove).announce m b .removed)
  else (false, w)

/-- Switches a breakpoint on or off. Subscribers are told if that changes a registered one. -/
def enableBreakpoint (w : World) (m : Nat) (b : Breakpoint) (enabled : Bool) : World :=
  let before := w.marks.isEnabled b
  let w := { w with marks := w.marks.enable b enabled }
  if before ≠ enabled ∧ (w.manager m).has b then w.announce m b .changed else w

end World

end DebugBridge
