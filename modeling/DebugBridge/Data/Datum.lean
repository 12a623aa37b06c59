import DebugBridge.Data.Scalar

/-!
# The content of slots

A slot holds nothing, a scalar, a string or an object. Strings and objects live on the heap of the
interpreter, so each mention carries the number of the string or object it refers to. Two strings of
one text are equal and still two strings.

## Main definitions

* `Datum`: the content of a slot;
* `Datum.identity?`, `Datum.same`: the two ways to compare;
* `Draft`: content that may need a new string.
-/

namespace DebugBridge

/-- The content of a slot. -/
inductive Datum where
  | null
  | scalar (value : Scalar)
  | text (id : Nat) (content : String)
  | object (id : Nat)
deriving DecidableEq

instance : Inhabited Datum := ⟨.null⟩

/-- What tells one string or object from all others. -/
inductive Identity where
  | text (id : Nat)
  | object (id : Nat)
deriving DecidableEq, Repr

namespace Datum

/-- The identity of a string or object. -/
def identity? : Datum → Option Identity
  | .text id _ => some (.text id)
  | .object id => some (.object id)
  | .null => none
  | .scalar _ => none

/-- Equality of content: strings by their text, objects by identity. -/
def same : Datum → Datum → Bool
  | .null, .null => true
  | .scalar x, .scalar y => x.same y
  | .text _ s, .text _ t => s == t
  | .object x, .object y => x == y
  | _, _ => false

/-- Whether there is no content. -/
def isNull : Datum → Bool
  | .null => true
  | _ => false

/-- Whether the content is a scalar. -/
def isScalar : Datum → Bool
  | .scalar _ => true
  | _ => false

end Datum

/-- Content on its way into a slot: what exists already, or the text of a string to be made. -/
inductive Draft where
  | settled (datum : Datum)
  | text (content : String)
deriving DecidableEq

end DebugBridge
