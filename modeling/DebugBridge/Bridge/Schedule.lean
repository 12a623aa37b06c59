import DebugBridge.Bridge.Calls

/-!
# The turns of interpreter threads

Interpreter threads are independent of each other, but only one acts at a time: of those that have
work and do not wait, the first by name. Between two messages every thread goes on until it waits or
its work is done.

## Main definitions

* `Bridge.spawn`, `Bridge.startWork`: new threads and new work;
* `Bridge.step`: the next call of the thread whose turn it is;
* `Bridge.settle`: all steps until no thread can go on.
-/

namespace DebugBridge

-- Sums start from the zero of core, whatever algebra is in scope.
attribute [local instance (high)] Zero.ofOfNat0

namespace Bridge

variable {σ : Type} [Inhabited σ] [Engine σ]

/-- Whether an interpreter thread is held up inside a call. -/
def isWaiting (b : Bridge σ) (i : Interpreter) : Bool :=
  (b.world.debugger i.session).isWaiting i.id

/-- The thread whose turn it is: the first that has work and does not wait. -/
def nextInterpreter? (b : Bridge σ) : Option Interpreter :=
  b.interpreters.find? fun i => i.running && !b.isWaiting i

/-- Puts a changed interpreter thread in the place of the old one. -/
def putInterpreter (b : Bridge σ) (i : Interpreter) : Bridge σ :=
  { b with interpreters := b.interpreters.map fun j => if j.id = i.id then i else j }

/-- The next step of an interpreter thread: a call, or the end of its work. -/
def stepOf (b : Bridge σ) (i : Interpreter) : Bridge σ :=
  match i.calls with
  | [] => { b.putInterpreter i.rest with finished := b.finished.push (i.name, i.results) }
  | c :: _ =>
    let actor := b.world.journal.interpreter
    let (r, b) := (b.onWorld (·.setActor i.name)).perform i c
    (b.onWorld (·.setActor actor)).putInterpreter (i.advance r)

/-- The next step of the thread whose turn it is. -/
def step (b : Bridge σ) : Bridge σ :=
  match b.nextInterpreter? with
  | some i => b.stepOf i
  | none => b

/-- How many steps all threads together have still to take. -/
def stepsLeft (b : Bridge σ) : Nat :=
  (b.interpreters.map Interpreter.steps).sum

/-- A number of steps. -/
def steps : Nat → Bridge σ → Bridge σ
  | 0, b => b
  | n + 1, b => steps n b.step

/-- Lets all threads go on until each waits or its work is done. Each step leaves one less. -/
def settle (b : Bridge σ) : Bridge σ :=
  steps b.stepsLeft b

/-! ### Threads and work -/

/-- Puts a thread in its place in the order of the names. -/
def insertByName (i : Interpreter) : List Interpreter → List Interpreter
  | [] => [i]
  | j :: rest => if i.name < j.name then i :: j :: rest else j :: insertByName i rest

/-- Adds an interpreter thread to a session, and gives its number. -/
def spawn (b : Bridge σ) (s : Nat) (name : String) : Nat × Bridge σ :=
  let id := b.interpreters.length
  (id, { b with interpreters := insertByName (.idle id name s) b.interpreters })

/-- The interpreter thread with a number. -/
def interpreter? (b : Bridge σ) (id : Nat) : Option Interpreter :=
  b.interpreters.find? fun i => i.id = id

/-- Whether the interpreter thread with a number has work. -/
def isRunning (b : Bridge σ) (id : Nat) : Bool :=
  (b.interpreter? id).any Interpreter.running

/-- Gives the interpreter thread with a number work, and lets it go on. A thread that is still at
work is left alone. -/
def startWork (b : Bridge σ) (id : Nat) (calls : List Call) : Progress × Bridge σ :=
  match b.interpreter? id with
  | none => (.done, b)
  | some i =>
    if i.running then (.busy, b)
    else
      let b := (b.putInterpreter (i.start calls)).settle.newTurn
      (if b.isRunning id then .blocked else .done, b)

end Bridge

end DebugBridge
