/-!
# Binary floating-point numbers

A number of a binary format is an integer significand times a power of two, or one of the special
values. Decimals are rounded to the nearest number of a format in exact integer arithmetic, a tie
going to the even significand.

## Main definitions

* `Format`: the precision and the exponent range of a format;
* `Binary`: a number of a format;
* `Binary.ofDecimal`: the number nearest to a decimal.
-/

namespace DebugBridge.Number

-- The powers of core, whatever algebra is in scope.
attribute [local instance (high)] instPowNat

/-- A binary format. A positive number of it is `significand * 2 ^ exponent` with a significand of
at most `precision` bits. -/
structure Format where
  /-- Bits of a significand. -/
  precision : Nat
  /-- Exponent of the least positive number. -/
  minExponent : Int
  /-- Exponent of the greatest finite number. -/
  maxExponent : Int
deriving DecidableEq, Repr

/-- The format of 32 bits. -/
def single : Format := ⟨24, -149, 104⟩

/-- The format of 64 bits. -/
def double : Format := ⟨53, -1074, 971⟩

/-- A number of a binary format. The significand of a finite number has full precision unless its
exponent is the least one, so each number has one form; zero keeps its sign. -/
inductive Binary where
  | nan
  | infinite (negative : Bool)
  | finite (negative : Bool) (significand : Nat) (exponent : Int)
deriving DecidableEq, Repr

/-- Numeric equality: `nan` differs from everything, itself included, and the two zeros agree. -/
def Binary.sameNumber : Binary → Binary → Bool
  | .infinite s, .infinite t => s == t
  | .finite s m e, .finite t n f => (m == 0 && n == 0) || (s == t && m == n && e == f)
  | _, _ => false

/-- A non-negative decimal, `digits * 10 ^ exponent`. -/
structure Decimal where
  digits : Nat
  exponent : Int
deriving DecidableEq, Repr

/-- The quotient rounded to the nearest integer, a tie going to the even one. -/
def roundDiv (num den : Nat) : Nat :=
  let q := num / den
  let r := num % den
  if 2 * r < den then q
  else if den < 2 * r then q + 1
  else if q % 2 = 0 then q
  else q + 1

/-- The greatest `e` with `2 ^ e ≤ num / den`, for positive `num` and `den`. The difference of the
two logarithms is that exponent or one more. -/
def floorLog2 (num den : Nat) : Int :=
  let e : Int := (num.log2 : Int) - (den.log2 : Int)
  if den * 2 ^ e.toNat ≤ num * 2 ^ (-e).toNat then e else e - 1

/-- The number of a format nearest to the positive quotient `num / den`. -/
def Binary.ofQuotient (format : Format) (negative : Bool) (num den : Nat) : Binary :=
  let e := max (floorLog2 num den - (format.precision - 1)) format.minExponent
  let m := roundDiv (num * 2 ^ (-e).toNat) (den * 2 ^ e.toNat)
  -- rounding up may carry into one more bit
  let (m, e) := if m = 2 ^ format.precision then (2 ^ (format.precision - 1), e + 1) else (m, e)
  if format.maxExponent < e then .infinite negative else .finite negative m e

/-- Decimals with a leading digit above this power of ten exceed every finite number of the formats
here, and those as far below one round to zero. -/
def decimalReach : Int := 400

/-- The number of decimal digits, at least one. -/
def digitCount (n : Nat) : Nat :=
  (Nat.toDigits 10 n).length

/-- The number of a format nearest to a decimal. -/
def Binary.ofDecimal (format : Format) (negative : Bool) (d : Decimal) : Binary :=
  let magnitude : Int := digitCount d.digits + d.exponent
  if d.digits = 0 ∨ magnitude < -decimalReach then .finite negative 0 format.minExponent
  else if decimalReach < magnitude then .infinite negative
  else
    .ofQuotient format negative (d.digits * 10 ^ d.exponent.toNat) (10 ^ (-d.exponent).toNat)

end DebugBridge.Number
