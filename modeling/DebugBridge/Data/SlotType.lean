import DebugBridge.Data.Datum
import DebugBridge.Failure
import DebugBridge.Text.Blank

/-!
# Slot types

The declared type of a field or of the elements of an array. A user writes a new value as an
expression, which is converted by the declared type: integers and characters exactly, floating-point
numbers between white space, and any text as a truth value, of which only `true` in any case is
true.

## Main definitions

* `SlotType`: the declared types;
* `SlotType.convert`: the value an expression stands for.
-/

namespace DebugBridge

open Number Text

/-- The declared type of a slot. -/
inductive SlotType where
  | scalar (type : ScalarType)
  | text
  | object (name : String)
deriving DecidableEq, Repr

namespace SlotType

/-- The name of a type. -/
def name : SlotType → String
  | .scalar type => type.name
  | .text => "String"
  | .object name => name

/-- Whether an expression can give a value of the type. -/
def isSimple : SlotType → Bool
  | .object _ => false
  | _ => true

/-- The lower case of the ASCII letters, all else unchanged. -/
def lowerAscii (s : String) : List Char :=
  s.toList.map Char.toLower

/-- The scalar of a type that an expression stands for. -/
def scalar? (expression : String) : ScalarType → Option Scalar
  | .whole width => (Whole.read? width expression).map .whole
  | .real precision =>
    (Binary.read? precision.format (trimBlank expression.toList)).map (.real precision)
  | .char =>
    match expression.toList with
    | [c] => some (.char c)
    | _ => none
  | .bool => some (.bool (lowerAscii expression == ['t', 'r', 'u', 'e']))

/-- The value of a type that an expression stands for. -/
def convert (type : SlotType) (expression : String) : Except Failure Draft :=
  let refused : Except Failure Draft := .error (.unsupportedConversion expression type.name)
  match type with
  | .scalar t =>
    match scalar? expression t with
    | some value => .ok (.settled (.scalar value))
    | none => refused
  | .text => .ok (.text expression)
  | .object _ => refused

end SlotType

end DebugBridge
