import DebugBridge.Dispatch.Mailbox
import DebugBridge.Message

/-!
# Dispatchers

A dispatcher stands between the interpreter and the model. It hands events to one processor and
requests to the other, one message at a time, in the order in which they were posted. A processor
may post further messages and may fail; a failure is reported and the delivery goes on. A manual
dispatcher delivers when its owner pumps it, a threaded one whenever there is something to deliver.

## Main definitions

* `Processors`: how the two sides react to a message;
* `Dispatcher`, with `post`, `pump` and `shutDown`.
-/

namespace DebugBridge

/-- What came of handling a message. -/
structure Reaction (S : Type) where
  state : S
  /-- The messages that were posted meanwhile. -/
  posts : List Message
  /-- Why the handling broke off, if it did. -/
  failure : Option String

/-- The two sides of a dispatcher, over one state. -/
structure Processors (S : Type) where
  model : Event → S → Reaction S
  runtime : Request → S → Reaction S
  /-- How many messages can follow from those that wait, themselves included, if no mark ends the
  delivery. -/
  bound : List Message → S → Nat

/-- The side that a message is for, applied to it. -/
def Processors.react {S : Type} (p : Processors S) : Message → S → Reaction S
  | .event e => p.model e
  | .request r => p.runtime r

/-- Who runs the delivery. -/
inductive DeliveryMode where
  | manual | threaded
deriving DecidableEq, Repr

/-- A dispatcher and the state of its two sides. -/
structure Dispatcher (S : Type) where
  mode : DeliveryMode
  mailbox : Mailbox Message
  state : S
  /-- The messages that were handed over, oldest first. -/
  delivered : Array Message
  /-- The failures that were caught, oldest first. -/
  failures : Array String

namespace Dispatcher

variable {S : Type}

/-- A dispatcher that has delivered nothing. -/
def start (mode : DeliveryMode) (state : S) : Dispatcher S :=
  ⟨mode, ∅, state, #[], #[]⟩

/-- Takes the oldest message out of the mailbox. -/
def take (d : Dispatcher S) : Option Message × Dispatcher S :=
  let (m, mailbox) := d.mailbox.take
  (m, { d with mailbox })

/-- Hands a message to the side it is for. -/
def deliver (p : Processors S) (m : Message) (d : Dispatcher S) : Dispatcher S :=
  let reaction := p.react m d.state
  { d with
    mailbox := reaction.posts.foldl Mailbox.post d.mailbox
    state := reaction.state
    delivered := d.delivered.push m
    failures := reaction.failure.elim d.failures d.failures.push }

/-- The most messages that can be delivered from now on. With a mark in the mailbox these are the
ones in front of it, for all that follows from them lies behind it. -/
def limit (p : Processors S) (d : Dispatcher S) : Nat :=
  let waiting := deliverable d.mailbox.queue
  if isMarked d.mailbox.queue then waiting.length else p.bound waiting d.state

/-- Delivers what is there and all that follows from it, and counts it. One more step than there
are messages finds the mailbox empty or takes the mark. -/
def run (p : Processors S) (d : Dispatcher S) : Nat × Dispatcher S :=
  drain take (deliver p) (limit p d + 1) d

/-- Lets a threaded dispatcher deliver what is there. -/
def settle (p : Processors S) (d : Dispatcher S) : Dispatcher S :=
  match d.mode with
  | .manual => d
  | .threaded => (run p d).2

/-- Posts a message. -/
def post (p : Processors S) (m : Message) (d : Dispatcher S) : Dispatcher S :=
  settle p { d with mailbox := d.mailbox.post m }

/-- Ends the delivery. -/
def shutDown (p : Processors S) (d : Dispatcher S) : Dispatcher S :=
  settle p { d with mailbox := d.mailbox.shutDown }

/-- Delivers what is there and counts it. A threaded dispatcher leaves nothing to its owner. -/
def pump (p : Processors S) (d : Dispatcher S) : Nat × Dispatcher S :=
  match d.mode with
  | .manual => run p d
  | .threaded => (0, d)

end Dispatcher

end DebugBridge
