import DebugBridge.Number.Binary
import DebugBridge.Number.Integer

/-!
# Reading floating-point numbers

The text of a number is an optional sign and then one of the words `inf`, `infinity` and `nan` in
any ASCII case, or digits with an optional point among, before or after them and an optional
exponent. At least one digit stands beside the point, and at least one in the exponent.

## Main definitions

* `Numeral`: what such a text says;
* `numeral?`: reads it;
* `Binary.read?`: the number of a format nearest to it.
-/

namespace DebugBridge.Number

/-- The content of the text of a number. -/
inductive Numeral where
  | nan
  | infinite (negative : Bool)
  | decimal (negative : Bool) (value : Decimal)
deriving DecidableEq, Repr

/-- The longest run of digits at the front, and the rest. -/
def spanDigits (cs : List Char) : List Char × List Char :=
  (cs.takeWhile fun c => (digit? c).isSome, cs.dropWhile fun c => (digit? c).isSome)

/-- The value of a run of digits, zero if it is empty. -/
def digitsValue (cs : List Char) : Nat :=
  (appendDigits? 0 cs).getD 0

/-- Reads what may follow the digits: nothing, or an exponent. -/
def exponent? : List Char → Option Int
  | [] => some 0
  | c :: cs => if c = 'e' ∨ c = 'E' then integer? cs else none

/-- Reads digits with an optional point and an optional exponent. -/
def decimal? (cs : List Char) : Option Decimal :=
  let (whole, rest) := spanDigits cs
  let (fraction, rest) := match rest with
    | '.' :: more => spanDigits more
    | _ => ([], rest)
  if whole.isEmpty && fraction.isEmpty then none
  else
    (exponent? rest).map fun e => ⟨digitsValue (whole ++ fraction), e - fraction.length⟩

/-- The ASCII lower case of each character. -/
def lowerWord (cs : List Char) : String :=
  String.ofList (cs.map Char.toLower)

/-- Reads an unsigned number, given the sign before it. -/
def unsigned? (negative : Bool) (cs : List Char) : Option Numeral :=
  match lowerWord cs with
  | "nan" => some .nan
  | "inf" => some (.infinite negative)
  | "infinity" => some (.infinite negative)
  | _ => (decimal? cs).map (.decimal negative)

/-- Reads the text of a number. -/
def numeral? : List Char → Option Numeral
  | '-' :: cs => unsigned? true cs
  | '+' :: cs => unsigned? false cs
  | cs => unsigned? false cs

/-- The number of a format nearest to a numeral. -/
def Numeral.toBinary (format : Format) : Numeral → Binary
  | .nan => .nan
  | .infinite negative => .infinite negative
  | .decimal negative d => .ofDecimal format negative d

/-- Reads the number of a format nearest to what a text says. -/
def Binary.read? (format : Format) (cs : List Char) : Option Binary :=
  (numeral? cs).map (Numeral.toBinary format)

end DebugBridge.Number
