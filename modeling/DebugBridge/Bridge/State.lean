import DebugBridge.Interpreter.Engine
import DebugBridge.Interpreter.Release

/-!
# A bridge between interpreters and front ends

A bridge is the world of sessions together with what runs at its far end: an engine for each
session, and the interpreter threads. The engines may be of any kind.

## Main definitions

* `Bridge`: the whole state;
* `Bridge.act`: an operation of a front end or a user.
-/

namespace DebugBridge

/-- The sessions, their engines and their interpreter threads. -/
structure Bridge (σ : Type) where
  world : World
  /-- The engine of each session. -/
  engines : Arena σ
  /-- All interpreter threads, in the order of their names. -/
  interpreters : List Interpreter
  /-- What threads got back whose work is done, oldest first. -/
  finished : Array (String × List CallResult)

namespace Bridge

variable {σ : Type}

instance : EmptyCollection (Bridge σ) := ⟨⟨.start, ∅, [], #[]⟩⟩

/-- Changes the world. -/
def onWorld (b : Bridge σ) (f : World → World) : Bridge σ :=
  { b with world := f b.world }

/-- Runs an operation of a front end or a user, which a front end may break off. -/
def act {α : Type} (b : Bridge σ) (op : Act α) : Except String α × Bridge σ :=
  match op b.world with
  | .ok a world => (.ok a, { b with world })
  | .error failure world => (.error failure, { b with world })

/-- Writes a line of the event trace. -/
def trace (b : Bridge σ) (topic text : String) : Bridge σ :=
  b.onWorld (·.trace topic text)

/-- Writes a warning of the interpreter side. -/
def warn (b : Bridge σ) (text : String) : Bridge σ :=
  b.onWorld (·.log .warn "runtime" text)

/-- Sends an event of the interpreter of a session. -/
def fire (b : Bridge σ) (s : Nat) (e : Event) : Bridge σ :=
  b.onWorld (·.fire s e)

/-- Begins a new turn: what is logged from now on is read after all that was logged before. -/
def newTurn (b : Bridge σ) : Bridge σ :=
  b.onWorld fun w => { w with journal := { w.journal with turn := w.journal.turn + 1 } }

/-- Lets an operation act in the name of an interpreter thread. -/
def actAs (b : Bridge σ) (name : String) (op : Bridge σ → Bridge σ) : Bridge σ :=
  (op (b.onWorld (·.setActor name))).onWorld (·.setActor b.world.journal.interpreter)

/-- Changes the engine of a session. -/
def modifyEngine [Inhabited σ] (b : Bridge σ) (s : Nat) (f : σ → σ) : Bridge σ :=
  { b with engines := b.engines.modify s f }

/-- Asks the engine of a session for something, which may change its state. -/
def askEngine [Inhabited σ] {α : Type} (b : Bridge σ) (s : Nat) (ask : σ → α × σ) : α × Bridge σ :=
  let (answer, engine) := ask (b.engines.get s)
  (answer, { b with engines := b.engines.set s engine })

end Bridge

end DebugBridge
