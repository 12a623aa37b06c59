import DebugBridge.Data.NameOrder
import DebugBridge.Text.Blank
import DebugBridge.Text.Quoted
import DebugBridge.Tree.Thread

/-!
# What happened

The journal keeps what the outside learns: the notifications to the front end and to other
listeners, and the lines of the log.

## Main definitions

* `Element`, `Notice`: parts of the model, and what a front end is told of them;
* `Note`, `LogLine`: the two kinds of entries;
* `Journal`, read from any moment on by `notesAfter` and `linesAfter`.
-/

namespace DebugBridge

/-- A part of the model of a session. Threads are numbered in the order of their creation. -/
inductive Element where
  | target
  | process
  | thread (index : Nat)
  | frame (frame : FrameRef)
deriving DecidableEq, Repr

/-- What part of an element changed. -/
inductive ChangeDetail where
  /-- What is below it. -/
  | content
  /-- Its own attributes. -/
  | state
deriving DecidableEq, Repr

/-- The name of a detail. -/
def ChangeDetail.name : ChangeDetail → String
  | .content => "content"
  | .state => "state"

/-- What a front end is told. -/
inductive Notice where
  | created (element : Element)
  | terminated (element : Element)
  | changed (element : Element) (detail : ChangeDetail)
  | suspended (thread : Nat) (reason : SuspendReason)
  | resumed (thread : Nat) (kind : ResumeKind)
deriving DecidableEq, Repr

/-- What happened to a breakpoint of a manager. -/
inductive BreakpointChange where
  | added | removed | changed
deriving DecidableEq, Repr

/-- The name of a change. -/
def BreakpointChange.name : BreakpointChange → String
  | .added => "added"
  | .removed => "removed"
  | .changed => "changed"

/-- The result of a watch expression: a value in its context, or why there is none. -/
structure WatchResult where
  expression : String
  content : Datum
  failure : Option EvalFailure
  context : Parent

namespace WatchResult

/-- The result of an evaluation. A failed one has the value null. -/
def of (expression : String) (result : Evaluated) (context : Parent) : WatchResult :=
  match result with
  | .ok content => ⟨expression, content, none, context⟩
  | .error failure => ⟨expression, .null, some failure, context⟩

/-- The messages for people. -/
def errorMessages (r : WatchResult) : List String :=
  r.failure.toList.map EvalFailure.displayMessage

/-- The failure of the evaluation. -/
def error (r : WatchResult) : Option Failure :=
  r.failure.map .evaluation

/-- The messages between brackets and the text of the failure, nothing if there is none. -/
def failureText (r : WatchResult) : String :=
  match r.error with
  | some e => Text.quotedList r.errorMessages ++ " " ++ e.message
  | none => ""

end WatchResult

/-- A notification, with the text of what it is about as it read then. -/
inductive Note where
  /-- The front end of a session was told of its model. -/
  | model (session : Nat) (notice : Notice) (text : String)
  /-- A listener was told of a breakpoint. -/
  | breakpoint (listener : String) (change : BreakpointChange) (text : String)
  /-- A listener got the result of a watch expression. -/
  | watch (listener : String) (result : WatchResult) (shown : String)

/-- The text of a notification. -/
def Note.text : Note → String
  | .model _ _ text => text
  | .breakpoint listener change text => s!"listener {listener} {change.name} {text}"
  | .watch listener result shown =>
    let text := s!"watch {listener} {result.expression} = {shown} {result.failureText}"
    String.ofList (Text.trimBlankEnd text.toList)

/-- How important a line of the log is. -/
inductive Level where
  | debug | warn | error
deriving DecidableEq, Repr

/-- The name of a level. -/
def Level.name : Level → String
  | .debug => "DEBUG"
  | .warn => "WARN"
  | .error => "ERROR"

/-- A line of the log. -/
structure LogLine where
  level : Level
  /-- The part of the bridge that wrote the line. -/
  topic : String
  text : String
  /-- The interpreter thread that wrote the line, if it was one. -/
  interpreter : Option String
  /-- The number of the turn in which it was written. -/
  turn : Nat
deriving DecidableEq, Repr

/-- A line of the log as it is written. -/
def LogLine.show (l : LogLine) : String :=
  s!"{l.level.name} {l.topic}: {l.text}"

/-- What happened so far, oldest first. -/
structure Journal where
  notes : Array Note
  lines : Array LogLine
  /-- The interpreter thread that acts now, if it is one. -/
  interpreter : Option String
  /-- The number of the present turn. -/
  turn : Nat

namespace Journal

instance : EmptyCollection Journal := ⟨⟨#[], #[], none, 0⟩⟩

/-- Adds a notification. -/
def note (j : Journal) (n : Note) : Journal :=
  { j with notes := j.notes.push n }

/-- Adds a line to the log, in the name of whoever acts. -/
def log (j : Journal) (level : Level) (topic text : String) : Journal :=
  { j with lines := j.lines.push ⟨level, topic, text, j.interpreter, j.turn⟩ }

/-- The notifications after the first ones. -/
def notesAfter (j : Journal) (count : Nat) : List Note :=
  (j.notes.extract count j.notes.size).toList

/-- Whether one line comes before another: by turn, and within a turn the lines of interpreter
threads after all others and by the names of the threads. -/
def before (x y : LogLine) : Bool :=
  if x.turn = y.turn then
    match x.interpreter, y.interpreter with
    | none, some _ => true
    | some s, some t => compare s t == .lt
    | _, none => false
  else x.turn < y.turn

/-- The lines of the log after the first ones, in the order in which they are read. -/
def linesAfter (j : Journal) (count : Nat) : List LogLine :=
  sortBy before (j.lines.extract count j.lines.size).toList

end Journal

end DebugBridge
