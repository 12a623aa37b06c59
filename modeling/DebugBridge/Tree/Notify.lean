import DebugBridge.World

/-!
# Telling the front end

A front end is told of each change of the model of a session that it watches. The notification is
noted first; then the front end may fail, which breaks off whatever the notification was part of.

## Main definitions

* `World.elementText`: the text of a part of the model;
* `notify`: tells the front end of a session;
* `openOrders`, `mustFail`: when a front end that was ordered to fail has to.
-/

namespace DebugBridge

/-- The name of every debug target. -/
def targetName : String := "Script Debugger"

/-- The label of every process. -/
def processLabel : String := "virtual script process"

namespace World

/-- The name of a thread of a session. -/
def threadName (w : World) (s i : Nat) : String :=
  ((w.session s).thread i).name

/-- The text of a part of the model of a session. -/
def elementText (w : World) (s : Nat) : Element → String
  | .target => "Target(" ++ targetName ++ ")"
  | .process => "Process(" ++ processLabel ++ ")"
  | .thread i => "Thread(" ++ w.threadName s i ++ ")"
  | .frame f =>
    "Frame(" ++ f.activation.name ++ ":" ++ toString (w.marks.lineOf f.activation) ++ ")"

/-- The text of a notification. -/
def noticeText (w : World) (s : Nat) : Notice → String
  | .created e => "create " ++ w.elementText s e
  | .terminated e => "terminate " ++ w.elementText s e
  | .changed e detail => "change " ++ w.elementText s e ++ " " ++ detail.name
  | .suspended i reason => "suspend " ++ w.threadName s i ++ " " ++ reason.name
  | .resumed i kind => "resume " ++ w.threadName s i ++ " " ++ kind.name

/-- Adds a notification to the journal. -/
def note (w : World) (n : Note) : World :=
  { w with journal := w.journal.note n }

end World

/-- The orders to fail at a notification that are still open. An order is the number of notes there
were when it was given, oldest first. Each such notification that was met, by its place among the
notes, used up the oldest open order, if that was given before it. -/
def openOrders (orders met : List Nat) : List Nat :=
  met.foldl (fun left place => if left.head?.any (· ≤ place) then left.tail else left) orders

/-- Whether a front end that was ordered to fail at notifications of certain texts has to fail at one
now. An order goes with the number of notes there were when it was given. -/
def mustFail (text : Note → String) (orders : List (String × Nat)) (before : Array Note)
    (note : Note) : Bool :=
  let orders := (orders.filter fun order => order.1 = text note).map (·.2)
  if orders.isEmpty then false
  else
    let met := before.toList.zipIdx.filter fun (other, _) => text other = text note
    !(openOrders orders (met.map (·.2))).isEmpty

/-- Tells the front end of a session, if there is one and the session is still held. -/
def notify (s : Nat) (notice : Notice) : Act Unit := do
  let w ← get
  let session := w.session s
  if session.alive && session.observed then
    let n : Note := .model s notice (w.noticeText s notice)
    let reaction := w.reaction w.journal.notes n
    change (·.note n)
    match reaction with
    | some failure => throw failure
    | none => return

end DebugBridge
