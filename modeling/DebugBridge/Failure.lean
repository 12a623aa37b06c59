/-!
# Failures

Why an operation of the bridge failed, and the texts a front end shows for it. An evaluation that
the interpreter could not finish is reported as plain data, a kind and perhaps a message.

## Main definitions

* `EvalFailure`: a failed evaluation;
* `Failure`: every other cause, with `Failure.message`.
-/

namespace DebugBridge

/-- A failed evaluation: the name of the kind of failure, and a message if there is one. -/
structure EvalFailure where
  kind : String
  message : Option String
deriving DecidableEq, Repr

/-- The message for people, or the kind where there is no message. -/
def EvalFailure.displayMessage (e : EvalFailure) : String :=
  e.message.getD e.kind

/-- The text of a failed evaluation: the kind, and the message after a colon. -/
def EvalFailure.text (e : EvalFailure) : String :=
  match e.message with
  | some message => e.kind ++ ": " ++ message
  | none => e.kind

/-- Why an operation failed. -/
inductive Failure where
  /-- A file could not be read as text. -/
  | unreadable
  /-- A document does not describe launch options. -/
  | badOptions
  /-- An expression is not a value of the type. -/
  | unsupportedConversion (expression type : String)
  /-- The content of the slot can not be replaced. -/
  | unsupportedTarget (slot : String)
  /-- The interpreter could not evaluate a watch expression. -/
  | evaluation (failure : EvalFailure)
  /-- An expression was to be evaluated outside a stack frame. -/
  | unsupportedContext
  /-- Memory blocks are not available. -/
  | memoryUnsupported (target : String)
  /-- Other threads are alive beside the one to terminate. -/
  | terminateUnsupported (thread : String)
  /-- The session is over. -/
  | sessionTerminated
  /-- The interpreter reported a failure, as a chain of causes, outermost first. -/
  | engine (causes : List String)
deriving DecidableEq, Repr

/-- The text of a failure. -/
def Failure.message : Failure → String
  | .unreadable => "unreadable file"
  | .badOptions => "configuration: invalid document"
  | .unsupportedConversion expression type => s!"could not convert <{expression}> to {type}"
  | .unsupportedTarget slot => "value of \"" ++ slot ++ "\" can not be modified"
  | .evaluation failure => "error during watch expression evaluation: " ++ failure.text
  | .unsupportedContext => "expressions can be evaluated in a stack frame context only"
  | .memoryUnsupported target => "memory block retrieval not supported by " ++ target
  | .terminateUnsupported thread =>
    thread ++ " can not be terminated while other threads are alive"
  | .sessionTerminated => "debug session already terminated"
  | .engine causes => "engine: " ++ ": ".intercalate causes

end DebugBridge
