import DebugBridge.Number.Binary

/-!
# Writing floating-point numbers

A finite number is written with the fewest decimal digits that read back to it, and of those with
the digits nearest to it. The digits are laid out positionally while the exponent of the leading
digit lies between -4 and 15, and as a power of ten otherwise; a positional text always has a
fraction.

## Main definitions

* `readsBack`: the decimals that round to a given number;
* `shortest`: the fewest digits of a number;
* `Binary.text`: the text of a number.
-/

namespace DebugBridge.Number

-- The powers of core, whatever algebra is in scope.
attribute [local instance (high)] instPowNat

/-- Compares `a * 10 ^ i` with `n * 2 ^ j`, exactly. -/
def compareScaled (a : Nat) (i : Int) (n : Nat) (j : Int) : Ordering :=
  compare (a * 10 ^ i.toNat * 2 ^ (-j).toNat) (n * 2 ^ j.toNat * 10 ^ (-i).toNat)

/-- Whether a decimal lies among the reals that round to `m * 2 ^ e`. They reach half way to either
neighbour, and the ends belong to an even significand. Below a full power of two the neighbour is
half as far, unless the exponent is already the least one. -/
def readsBack (format : Format) (m : Nat) (e : Int) (d : Decimal) : Bool :=
  let narrow := m = 2 ^ (format.precision - 1) ∧ format.minExponent < e
  let low := if narrow then 4 * m - 1 else 4 * m - 2
  let high := 4 * m + 2
  let ends := m % 2 = 0
  let atLow := compareScaled d.digits d.exponent low (e - 2)
  let atHigh := compareScaled d.digits d.exponent high (e - 2)
  (atLow = .gt ∨ (ends ∧ atLow = .eq)) ∧ (atHigh = .lt ∨ (ends ∧ atHigh = .eq))

/-- The least `k`, found upwards from `k` in at most `steps` steps, with `m * 2 ^ e < 10 ^ k`. -/
def scaleFrom (m : Nat) (e : Int) : Nat → Int → Int
  | 0, k => k
  | steps + 1, k =>
    if compareScaled 1 k m e = .gt then k else scaleFrom m e steps (k + 1)

/-- The least `k` with `m * 2 ^ e < 10 ^ k`. Since `0.3 < log10 2 < 0.302`, the search starts at
most a few steps below. -/
def scale (m : Nat) (e : Int) : Int :=
  let bits : Int := m.log2 + e
  scaleFrom m e 16 (Int.fdiv (bits * 301) 1000 - 2)

/-- The neighbour of `m * 2 ^ e` on the grid of the multiples of `10 ^ g` that reads back: the
nearer one if both do, the upper one on a tie. -/
def onGrid (format : Format) (m : Nat) (e g : Int) : Option Decimal :=
  let num := m * 2 ^ e.toNat * 10 ^ (-g).toNat
  let den := 2 ^ (-e).toNat * 10 ^ g.toNat
  let below : Decimal := ⟨num / den, g⟩
  let above : Decimal := ⟨num / den + 1, g⟩
  let preferBelow := 2 * (num % den) < den
  match readsBack format m e below, readsBack format m e above with
  | true, true => some (if preferBelow then below else above)
  | true, false => some below
  | false, true => some above
  | false, false => none

/-- Drops trailing zeros of the digits, at most `steps` of them. -/
def dropZeros : Nat → Decimal → Decimal
  | 0, d => d
  | steps + 1, d =>
    if d.digits % 10 = 0 ∧ d.digits ≠ 0 then dropZeros steps ⟨d.digits / 10, d.exponent + 1⟩ else d

/-- The exact value of `m * 2 ^ e` as a decimal. -/
def exactDecimal (m : Nat) (e : Int) : Decimal :=
  ⟨m * 2 ^ e.toNat * 5 ^ (-e).toNat, -((-e).toNat : Int)⟩

/-- The shortest decimal that reads back to the positive number `m * 2 ^ e`: the coarsest grid with
a hit. Seventeen digits suffice for the formats here. -/
def shortest (format : Format) (m : Nat) (e : Int) : Decimal :=
  let k := scale m e
  let hit := (List.range 17).findSome? fun n => onGrid format m e (k - (n + 1 : Nat))
  dropZeros 32 (hit.getD (exactDecimal m e))

/-- The exponents of the leading digit that are written positionally. -/
def isPositional (lead : Int) : Bool :=
  -4 ≤ lead && lead < 16

/-- Lays the digits of a positive decimal out. -/
def Decimal.text (d : Decimal) : String :=
  let ds := Nat.toDigits 10 d.digits
  let count := ds.length
  let lead : Int := count + d.exponent - 1
  if isPositional lead then
    if 0 ≤ d.exponent then
      String.ofList (ds ++ List.replicate d.exponent.toNat '0') ++ ".0"
    else if 0 ≤ lead then
      let whole := (lead + 1).toNat
      String.ofList (ds.take whole) ++ "." ++ String.ofList (ds.drop whole)
    else
      "0." ++ String.ofList (List.replicate (-lead - 1).toNat '0' ++ ds)
  else
    let fraction := ds.drop 1
    let point := if fraction.isEmpty then "" else "." ++ String.ofList fraction
    String.ofList (ds.take 1) ++ point ++ "e" ++ toString lead

/-- The text of a number of a format. -/
def Binary.text (format : Format) : Binary → String
  | .nan => "NaN"
  | .infinite negative => if negative then "-inf" else "inf"
  | .finite negative m e =>
    let magnitude := if m = 0 then "0.0" else (shortest format m e).text
    if negative then "-" ++ magnitude else magnitude

end DebugBridge.Number
