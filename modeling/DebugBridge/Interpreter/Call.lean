import DebugBridge.Data.Datum
import DebugBridge.Script

/-!
# What interpreter threads do

An interpreter thread tells its debugger of each step that concerns it: scripts it is about to run,
calls it enters and leaves, lines it reaches. It may be held up inside such a call. The work of a
thread is a list of calls that are still to be made.

## Main definitions

* `Call`, `CallResult`: the calls, and what the thread gets back;
* `Progress`: how far it came;
* `Interpreter`: an interpreter thread with its work.
-/

namespace DebugBridge

/-- What an interpreter thread tells or asks its debugger. -/
inductive Call where
  | engineStarted
  | engineFinished
  | threadStarted
  | threadFinished
  /-- A script is about to run. -/
  | scriptStarted (script : Script)
  /-- A call is entered. -/
  | push (activation : Activation)
  /-- The innermost call is left. -/
  | pop
  /-- A line of the innermost call is about to be executed. -/
  | line (script : Script) (number : Nat)
  /-- The calls that are active. -/
  | stack
  /-- The handle of the thread itself. -/
  | currentThread
  /-- The engine binds one of its variables. -/
  | bind (name : String) (content : Datum)
  /-- Whether the engine was told to stop. -/
  | check
deriving DecidableEq

/-- What an interpreter thread gets back from a call. -/
inductive CallResult where
  | ok
  | popped (activation : Option Activation)
  | stack (activations : List Activation)
  | thread (handle : Handle)
  /-- The engine was told to stop, and the thread leaves the rest of its work. -/
  | stopped
deriving DecidableEq, Repr

/-- How far a thread came with new work. -/
inductive Progress where
  /-- It is still at work on something else. -/
  | busy
  /-- It is held up inside a call. -/
  | blocked
  | done
deriving DecidableEq, Repr

/-- The name of a progress. -/
def Progress.name : Progress → String
  | .busy => "busy"
  | .blocked => "blocked"
  | .done => "done"

/-- An interpreter thread. -/
structure Interpreter where
  id : Nat
  name : String
  /-- The session whose debugger it tells. -/
  session : Nat
  /-- Whether it has work. -/
  running : Bool
  /-- The calls that it has still to make. -/
  calls : List Call
  /-- What it got back since its work began. -/
  results : List CallResult
deriving DecidableEq

namespace Interpreter

/-- A thread without work. -/
def idle (id : Nat) (name : String) (session : Nat) : Interpreter :=
  ⟨id, name, session, false, [], []⟩

/-- A thread with new work. -/
def start (i : Interpreter) (calls : List Call) : Interpreter :=
  { i with running := true, calls, results := [] }

/-- A thread after its next call. One that is told to stop leaves the rest of its work. -/
def advance (i : Interpreter) (r : CallResult) : Interpreter :=
  { i with
    calls := if r = .stopped then [] else i.calls.tail
    results := i.results ++ [r] }

/-- A thread whose work is done. -/
def rest (i : Interpreter) : Interpreter :=
  { i with running := false, calls := [], results := [] }

/-- How many steps a thread has still to take: its calls, and one to end its work. -/
def steps (i : Interpreter) : Nat :=
  if i.running then i.calls.length + 1 else 0

/-- A call is a step: fewer are left after it. -/
theorem steps_advance_lt (i : Interpreter) (r : CallResult) (hr : i.running = true)
    (hc : i.calls ≠ []) : (i.advance r).steps < i.steps := by
  have hp := List.length_pos_iff.mpr hc
  simp only [steps, advance, hr, if_true]
  split
  · simpa using hp
  · simp only [List.length_tail]
    omega

/-- A thread at rest has no steps left. -/
@[simp] theorem steps_rest (i : Interpreter) : i.rest.steps = 0 :=
  rfl

end Interpreter

end DebugBridge
