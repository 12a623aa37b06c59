import DebugBridge.Number.Integer
import DebugBridge.Number.Reading
import DebugBridge.Number.Shortest

/-!
# Scalars

The values that a slot holds directly: integers of four widths, floating-point numbers of two
precisions, characters and truth values. Each has a type with a name and a text for display.

## Main definitions

* `Whole`: an integer that fits its width;
* `Scalar`: a scalar, with `Scalar.type` and `Scalar.text`;
* `Scalar.same`: equality of scalars, numeric on floating-point numbers.
-/

namespace DebugBridge

open Number

/-- The widths of integers. -/
inductive Width where
  | byte | short | int | long
deriving DecidableEq, Repr

/-- The number of bits of a width. -/
def Width.bits : Width → Nat
  | .byte => 8
  | .short => 16
  | .int => 32
  | .long => 64

/-- The name of a width. -/
def Width.name : Width → String
  | .byte => "byte"
  | .short => "short"
  | .int => "int"
  | .long => "long"

/-- The precisions of floating-point numbers. -/
inductive Precision where
  | single | double
deriving DecidableEq, Repr

/-- The binary format of a precision. -/
def Precision.format : Precision → Format
  | .single => Number.single
  | .double => Number.double

/-- The name of a precision. -/
def Precision.name : Precision → String
  | .single => "float"
  | .double => "double"

/-- An integer of a width, within its range. -/
structure Whole where
  width : Width
  value : Int
  fits : fitsSigned width.bits value = true
deriving DecidableEq

/-- The integer of a width with a given value, if it is within the range. -/
def Whole.ofInt? (width : Width) (value : Int) : Option Whole :=
  if h : fitsSigned width.bits value = true then some ⟨width, value, h⟩ else none

/-- Reads an integer of a width. -/
def Whole.read? (width : Width) (s : String) : Option Whole :=
  (integer? s.toList).bind (Whole.ofInt? width)

/-- A scalar value. -/
inductive Scalar where
  | whole (value : Whole)
  | real (precision : Precision) (value : Binary)
  | char (value : Char)
  | bool (value : Bool)
deriving DecidableEq

/-- The types of scalars. -/
inductive ScalarType where
  | whole (width : Width)
  | real (precision : Precision)
  | char
  | bool
deriving DecidableEq, Repr

/-- The name of a type of scalars. -/
def ScalarType.name : ScalarType → String
  | .whole width => width.name
  | .real precision => precision.name
  | .char => "char"
  | .bool => "bool"

/-- All types of scalars. -/
def ScalarType.all : List ScalarType :=
  [.whole .byte, .whole .short, .whole .int, .whole .long, .real .single, .real .double, .char,
    .bool]

/-- The type of a scalar. -/
def Scalar.type : Scalar → ScalarType
  | .whole value => .whole value.width
  | .real precision _ => .real precision
  | .char _ => .char
  | .bool _ => .bool

/-- The text of a truth value. -/
def boolText (b : Bool) : String :=
  if b then "true" else "false"

/-- The text of a scalar: integers in decimal digits, floating-point numbers in the fewest digits
that read back, a character as itself. -/
def Scalar.text : Scalar → String
  | .whole value => integerText value.value
  | .real precision value => value.text precision.format
  | .char value => String.ofList [value]
  | .bool value => boolText value

/-- Equality of scalars of one type; floating-point numbers are compared as numbers. -/
def Scalar.same : Scalar → Scalar → Bool
  | .real p x, .real q y => p == q && x.sameNumber y
  | .whole x, .whole y => x == y
  | .char x, .char y => x == y
  | .bool x, .bool y => x == y
  | _, _ => false

end DebugBridge
