import DebugBridge.Dispatch.Dispatcher

/-!
# A recorder on both sides of a dispatcher

The recorder notes each message that reaches it. To some messages it replies with others, and at
some it fails before it has noted them.

## Main definitions

* `Recorder`: the messages it replies to and those it fails at;
* `Recorder.processors`: the recorder as the two sides of a dispatcher;
* `Recorder.bound`: how many messages can follow from those that wait.
-/

namespace DebugBridge

-- Sums start from the zero of core, whatever algebra is in scope.
attribute [local instance (high)] Zero.ofOfNat0

/-- The habits of a recorder, by the text of a message. -/
structure Recorder where
  replies : List (String × List Message)
  refusals : List String

namespace Recorder

/-- No line moves and no breakpoint is switched off while a recorder listens. -/
def marks : Marks := ∅

/-- The text under which a message is noted. -/
def note : Message → String
  | .event e => "event " ++ e.text marks
  | .request r => "request " ++ r.text marks

/-- The replies to a message. -/
def repliesTo (r : Recorder) (m : Message) : List Message :=
  (r.replies.lookup (note m)).getD []

/-- Handles a message, with the notes taken so far as the state. -/
def handle (r : Recorder) (m : Message) (notes : Array String) : Reaction (Array String) :=
  if r.refusals.contains (note m) then ⟨notes, [], some ("no " ++ note m)⟩
  else ⟨notes.push (note m), r.repliesTo m, none⟩

/-- How many messages follow from one, itself included, along chains of replies of a given
length. -/
def weight (r : Recorder) : Nat → Message → Nat
  | 0, _ => 1
  | depth + 1, m =>
    if r.refusals.contains (note m) then 1
    else ((r.repliesTo m).map (r.weight depth)).sum + 1

/-- How many messages follow from those that wait. A chain of replies that does not repeat a text is
at most as long as the list of texts with replies. -/
def bound (r : Recorder) (waiting : List Message) : Nat :=
  (waiting.map (r.weight (r.replies.length + 1))).sum

/-- The recorder as the two sides of a dispatcher. -/
def processors (r : Recorder) : Processors (Array String) where
  model event := r.handle (.event event)
  runtime request := r.handle (.request request)
  bound waiting _ := r.bound waiting

end Recorder

end DebugBridge
