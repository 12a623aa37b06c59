import DebugBridge.Bridge.State
import DebugBridge.Tree.Target

/-!
# New sessions

A session is opened with a breakpoint manager and, if somebody listens, a front end. Its two sides
can be joined from the start.

## Main definitions

* `Bridge.launch`: opens a session.
-/

namespace DebugBridge

/-- How a session is put together. -/
structure Setup where
  options : LaunchOptions
  /-- The number of its breakpoint manager. -/
  manager : Nat
  /-- Whether a front end listens. -/
  observed : Bool
  /-- Whether a debugger takes the requests of the model. -/
  withDebugger : Bool
  /-- Whether its two sides are joined. -/
  joined : Bool

namespace Bridge

variable {σ : Type}

/-- Opens a session and gives its number. If the front end fails at once, nobody holds the
session. -/
def launch (b : Bridge σ) (setup : Setup) : Except String Nat × Bridge σ :=
  let s := b.world.sessions.size
  match b.act (startSession setup.options setup.manager setup.observed) with
  | (.error failure, b) => (.error failure, b.onWorld (·.dropSession s))
  | (.ok _, b) =>
    let b := if setup.withDebugger then b.onWorld (·.addDebugger s) else b
    let b := if setup.joined then b.onWorld (·.joinSides s) else b
    (.ok s, b)

end Bridge

end DebugBridge
