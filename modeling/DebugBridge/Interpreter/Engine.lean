import DebugBridge.Data.Datum
import DebugBridge.Failure
import DebugBridge.Script

/-!
# Engines

What an interpreter has to offer to the debugger: the variables of an activation, the evaluation and
assignment of expressions in its scope, and the end of the execution. The debugger works for every
engine; an engine may change its own state whenever it is asked for something.

## Main definitions

* `Scope`, `Report`: what an engine is asked about, and what it answers;
* `Engine`.
-/

namespace DebugBridge

/-- An activation and the line at which it stands. -/
structure Scope where
  activation : Activation
  line : Nat
deriving DecidableEq, Repr

/-- A variable that an engine reports, with a text for display if the engine wants one shown. -/
structure Report where
  name : String
  content : Datum
  rendered : Option String
deriving DecidableEq

/-- Why an engine failed: a chain of causes, outermost first. -/
abbrev Causes := List String

/-- What an interpreter offers to the debugger. -/
class Engine (σ : Type) where
  /-- The variables that are visible in a scope. -/
  visible : σ → Scope → Except Causes (List Report) × σ
  /-- The value of an expression in a scope. -/
  evaluate : σ → Scope → String → Except EvalFailure Draft × σ
  /-- Gives a variable that is visible in a scope a new value. -/
  assign : σ → Scope → String → Datum → Except Causes Unit × σ
  /-- Ends the execution. -/
  terminate : σ → Except Causes Unit × σ
  /-- Whether the execution was ended. -/
  isStopped : σ → Bool
  /-- What a script does when it binds a variable itself. -/
  bind : σ → String → Datum → σ

end DebugBridge
