/-!
# Decimal integers

An integer is read from an optional sign and one or more ASCII digits, with nothing before, between
or after them. Leading zeros are allowed. The width of an integer then bounds its value.

## Main definitions

* `integer?`: the value of a signed run of digits;
* `fitsSigned`: the range of a signed width;
* `index?`: the value of an unsigned number of 64 bits, for which a plus sign is the only sign;
* `integerText`: writes an integer.
-/

namespace DebugBridge.Number

-- The powers of core, whatever algebra is in scope.
attribute [local instance (high)] instPowNat

/-- The value of an ASCII digit. -/
def digit? (c : Char) : Option Nat :=
  if '0' ≤ c ∧ c ≤ '9' then some (c.toNat - '0'.toNat) else none

/-- Appends the digits of a text to the number `n`, or `none` at the first other character. -/
def appendDigits? (n : Nat) : List Char → Option Nat
  | [] => some n
  | c :: cs => (digit? c).bind fun d => appendDigits? (10 * n + d) cs

/-- The value of a nonempty run of digits. -/
def digits? : List Char → Option Nat
  | [] => none
  | c :: cs => appendDigits? 0 (c :: cs)

/-- The value of a signed run of digits of any size. -/
def integer? : List Char → Option Int
  | '+' :: cs => (digits? cs).map fun n => (n : Int)
  | '-' :: cs => (digits? cs).map fun n => -(n : Int)
  | cs => (digits? cs).map fun n => (n : Int)

/-- The least and the greatest integer of a signed width are `-2 ^ (bits - 1)` and
`2 ^ (bits - 1) - 1`. -/
def fitsSigned (bits : Nat) (z : Int) : Bool :=
  -(2 ^ (bits - 1) : Int) ≤ z && z < (2 ^ (bits - 1) : Int)

/-- The decimal digits of an integer, after a minus sign if it is negative. -/
def integerText (z : Int) : String :=
  let digits := Nat.toDigits 10 z.natAbs
  String.ofList (if z < 0 then '-' :: digits else digits)

/-- Reads an unsigned number of 64 bits. -/
def index? (cs : List Char) : Option Nat :=
  let digits := match cs with
    | '+' :: rest => rest
    | _ => cs
  (digits? digits).filter (· < 2 ^ (64 : Nat))

end DebugBridge.Number
