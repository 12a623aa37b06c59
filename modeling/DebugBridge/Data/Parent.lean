import DebugBridge.Script

/-!
# Parents of variables and values

A variable that a front end looks at belongs to a stack frame or to a whole session. Through its
parent it reaches the session whose display ids it shows and whose interpreter can change it.

## Main definitions

* `FrameRef`: one stack frame of a session;
* `Parent`: what a variable or a value belongs to.
-/

namespace DebugBridge

/-- A stack frame of a session. The frame with an index wraps one activation for good, on the thread
with one handle; its variables are kept by the session. -/
structure FrameRef where
  session : Nat
  index : Nat
  handle : Handle
  activation : Activation
deriving DecidableEq, Repr

/-- What a variable or a value belongs to. -/
inductive Parent where
  | detached
  | target (session : Nat)
  | frame (frame : FrameRef)
deriving DecidableEq, Repr

/-- The name of the kind of a parent. -/
def Parent.kindName : Parent → String
  | .detached => "detached"
  | .target _ => "target"
  | .frame _ => "frame"

end DebugBridge
