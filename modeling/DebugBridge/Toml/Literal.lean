import DebugBridge.Number.Reading
import DebugBridge.Toml.Scan

/-!
# Strings, numbers and moments of a TOML document

Strings come in four forms, by their quote and by whether they may span lines. An integer is written
in one of four bases and fits 64 bits; a floating-point number has a fraction or an exponent and
does not overflow upwards. A moment is a date, a time or both, and is checked against the calendar.

## Main definitions

* `shortString`, `longString`: strings of one line and of several;
* `integerLiteral`, `realLiteral`, `momentLiteral`.
-/

namespace DebugBridge.Toml

open Number

/-! ### Digits -/

/-- The value of a hexadecimal digit. -/
def hexDigit? (c : Char) : Option Nat :=
  if '0' ≤ c ∧ c ≤ '9' then some (c.toNat - '0'.toNat)
  else if 'a' ≤ c ∧ c ≤ 'f' then some (c.toNat - 'a'.toNat + 10)
  else if 'A' ≤ c ∧ c ≤ 'F' then some (c.toNat - 'A'.toNat + 10)
  else none

/-- The value of a digit of a base of at most sixteen. -/
def digitOf? (base : Nat) (c : Char) : Option Nat :=
  (hexDigit? c).filter (· < base)

/-- The number that digits of a base stand for. -/
def digitsIn (base : Nat) (digits : List Nat) : Nat :=
  digits.foldl (fun n d => n * base + d) 0

/-- Reads exactly so many digits of a base. -/
def fixedDigits (base : Nat) : Nat → Reader (List Nat)
  | 0, cs => some ([], cs)
  | _ + 1, [] => none
  | count + 1, c :: cs => do
    let d ← digitOf? base c
    let (ds, rest) ← fixedDigits base count cs
    return (d :: ds, rest)

/-- Whether underscores stand only between digits, given whether one may come next. -/
def wellGrouped (afterDigit : Bool) : List Char → Bool
  | [] => afterDigit
  | c :: cs => if c = '_' then afterDigit && wellGrouped false cs else wellGrouped true cs

/-- Whether a character may stand in grouped digits of a base. -/
def isGrouped (base : Nat) (c : Char) : Bool :=
  c = '_' || (digitOf? base c).isSome

/-- Reads one or more digits of a base, between which single underscores may stand. -/
def someDigits (base : Nat) (cs : List Char) : Option (List Nat × List Char) :=
  let run := cs.takeWhile (isGrouped base)
  if wellGrouped false run then some (run.filterMap (digitOf? base), cs.dropWhile (isGrouped base))
  else none

/-! ### Strings -/

/-- The character with a code point, if there is one. -/
def charOf? (n : Nat) : Option Char :=
  if n.isValidChar then some (Char.ofNat n) else none

/-- Reads what follows a backslash. -/
def escaped : Reader Char
  | 'b' :: rest => some ('\x08', rest)
  | 't' :: rest => some ('\t', rest)
  | 'n' :: rest => some ('\n', rest)
  | 'f' :: rest => some ('\x0c', rest)
  | 'r' :: rest => some ('\r', rest)
  | '"' :: rest => some ('"', rest)
  | '\\' :: rest => some ('\\', rest)
  | 'u' :: rest => do
    let (digits, rest) ← fixedDigits 16 4 rest
    return (← charOf? (digitsIn 16 digits), rest)
  | 'U' :: rest => do
    let (digits, rest) ← fixedDigits 16 8 rest
    return (← charOf? (digitsIn 16 digits), rest)
  | _ => none

/-- Reads a string of one line up to its closing quote. Only strings between double quotes have
escapes. -/
def shortBody (quote : Char) : Nat → Reader (List Char)
  | 0, _ => none
  | rounds + 1, cs =>
    match cs with
    | [] => none
    | c :: rest =>
      if c = quote then some ([], rest)
      else if c = '\\' ∧ quote = '"' then do
        let (x, rest) ← escaped rest
        let (xs, rest) ← shortBody quote rounds rest
        return (x :: xs, rest)
      else if isPlain c then do
        let (xs, rest) ← shortBody quote rounds rest
        return (c :: xs, rest)
      else none

/-- Drops white space and ends of lines. -/
def dropLines : Nat → List Char → List Char
  | 0, cs => cs
  | rounds + 1, cs =>
    match newline (blanks cs) with
    | some rest => dropLines rounds rest
    | none => blanks cs

/-- Reads a string of several lines up to its closing three quotes. One or two quotes may stand
inside it, and directly before the closing ones. A backslash at the end of a line joins it to the
next text. -/
def longBody (quote : Char) : Nat → Reader (List Char)
  | 0, _ => none
  | rounds + 1, cs =>
    match cs with
    | [] => none
    | c :: rest =>
      if c = quote then
        let run := (cs.takeWhile (· = quote)).length
        if run < 3 then do
          let (xs, rest) ← longBody quote rounds rest
          return (c :: xs, rest)
        else
          let inside := min (run - 3) 2
          some (List.replicate inside quote, cs.drop (inside + 3))
      else if c = '\\' ∧ quote = '"' then
        match newline (blanks rest) with
        | some next => longBody quote rounds (dropLines (next.length + 1) next)
        | none => do
          let (x, rest) ← escaped rest
          let (xs, rest) ← longBody quote rounds rest
          return (x :: xs, rest)
      else
        match newline cs with
        | some next => do
          let (xs, rest) ← longBody quote rounds next
          return ('\n' :: xs, rest)
        | none =>
          if isPlain c then do
            let (xs, rest) ← longBody quote rounds rest
            return (c :: xs, rest)
          else none

/-- Whether a character opens a string. -/
def isQuote (c : Char) : Bool :=
  c = '"' || c = '\''

/-- Reads a string of one line. -/
def shortString (cs : List Char) : Option (String × List Char) := do
  let (quote, rest) ← match cs with
    | c :: rest => if isQuote c then some (c, rest) else none
    | [] => none
  let (xs, rest) ← shortBody quote (rest.length + 1) rest
  return (String.ofList xs, rest)

/-- Reads a string of several lines. An end of line right after the opening quotes does not
count. -/
def longString (cs : List Char) : Option (String × List Char) := do
  let (quote, rest) ← match cs with
    | a :: b :: c :: rest => if isQuote a && a = b && b = c then some (a, rest) else none
    | _ => none
  let rest := (newline rest).getD rest
  let (xs, rest) ← longBody quote (rest.length + 1) rest
  return (String.ofList xs, rest)

/-! ### Numbers -/

/-- Takes a sign, if there is one, and tells whether it is a minus. -/
def sign : List Char → Bool × List Char
  | '+' :: rest => (false, rest)
  | '-' :: rest => (true, rest)
  | cs => (false, cs)

/-- Reads decimal digits without a leading zero, unless zero is all there is. -/
def plainDigits : Reader (List Nat)
  | '0' :: rest => some ([0], rest)
  | cs => someDigits 10 cs

/-- Whether an integer fits 64 bits. -/
def fitsInteger (z : Int) : Bool :=
  fitsSigned 64 z

/-- Reads an integer. One in another base than ten has no sign. -/
def integerLiteral (cs : List Char) : Option (Int × List Char) := do
  let (z, rest) ← match cs with
    | '0' :: 'x' :: rest => (someDigits 16 rest).map fun (ds, r) => ((digitsIn 16 ds : Int), r)
    | '0' :: 'o' :: rest => (someDigits 8 rest).map fun (ds, r) => ((digitsIn 8 ds : Int), r)
    | '0' :: 'b' :: rest => (someDigits 2 rest).map fun (ds, r) => ((digitsIn 2 ds : Int), r)
    | _ =>
      let (negative, rest) := sign cs
      (plainDigits rest).map fun (ds, r) =>
        let n : Int := digitsIn 10 ds
        (if negative then -n else n, r)
  if fitsInteger z then some (z, rest) else none

/-- Reads a fraction, if there is a point. -/
def fractionPart : Reader (List Nat)
  | '.' :: rest => someDigits 10 rest
  | cs => some ([], cs)

/-- Reads an exponent, if there is its letter. -/
def exponentPart : Reader (Option Int)
  | [] => some (none, [])
  | c :: rest =>
    if c = 'e' ∨ c = 'E' then do
      let (negative, rest) := sign rest
      let (digits, rest) ← someDigits 10 rest
      let n : Int := digitsIn 10 digits
      return (some (if negative then -n else n), rest)
    else some (none, c :: rest)

/-- Reads an infinity or a number that is none. -/
def specialReal (negative : Bool) (cs : List Char) : Option (Binary × List Char) :=
  match expectWord ['i', 'n', 'f'] cs with
  | some rest => some (.infinite negative, rest)
  | none => (expectWord ['n', 'a', 'n'] cs).map fun rest => (.nan, rest)

/-- Reads a floating-point number. -/
def realLiteral (cs : List Char) : Option (Binary × List Char) :=
  let (negative, start) := sign cs
  match specialReal negative start with
  | some found => some found
  | none => do
    let (whole, rest) ← plainDigits start
    let (fraction, rest) ← fractionPart rest
    let (exponent, rest) ← exponentPart rest
    if fraction.isEmpty && exponent.isNone then none
    else
      let d : Decimal := ⟨digitsIn 10 (whole ++ fraction), exponent.getD 0 - fraction.length⟩
      match Binary.ofDecimal double negative d with
      | .infinite false => none
      | x => some (x, rest)

/-! ### Moments -/

/-- Reads two digits whose number lies in a range. -/
def twoDigits (low high : Nat) (cs : List Char) : Option (Nat × List Char) := do
  let (digits, rest) ← fixedDigits 10 2 cs
  let n := digitsIn 10 digits
  if low ≤ n ∧ n ≤ high then some (n, rest) else none

/-- Whether a year has a leap day. -/
def isLeapYear (year : Nat) : Bool :=
  year % 4 = 0 && (year % 100 ≠ 0 || year % 400 = 0)

/-- The number of days of a month. -/
def daysOfMonth (year month : Nat) : Nat :=
  match month with
  | 2 => if isLeapYear year then 29 else 28
  | 4 | 6 | 9 | 11 => 30
  | _ => 31

/-- Takes a date of the calendar. -/
def date (cs : List Char) : Option (List Char) := do
  let (year, rest) ← fixedDigits 10 4 cs
  let rest ← expect '-' rest
  let (month, rest) ← twoDigits 1 12 rest
  let rest ← expect '-' rest
  let (_, rest) ← twoDigits 1 (daysOfMonth (digitsIn 10 year) month) rest
  return rest

/-- Takes a fraction of a second, if there is one. -/
def secondFraction (cs : List Char) : List Char :=
  match cs with
  | '.' :: c :: rest =>
    if (digit? c).isSome then rest.dropWhile fun d => (digit? d).isSome else cs
  | _ => cs

/-- Takes a time of day, to the second. A minute may have a leap second. -/
def timeOfDay (cs : List Char) : Option (List Char) := do
  let (_, rest) ← twoDigits 0 23 cs
  let rest ← expect ':' rest
  let (_, rest) ← twoDigits 0 59 rest
  let rest ← expect ':' rest
  let (_, rest) ← twoDigits 0 60 rest
  return secondFraction rest

/-- Takes an offset from universal time, if there is one. -/
def timeOffset (cs : List Char) : Option (List Char) :=
  match cs with
  | [] => some []
  | c :: rest =>
    if c = 'Z' ∨ c = 'z' then some rest
    else if c = '+' ∨ c = '-' then do
      let (_, rest) ← twoDigits 0 23 rest
      let rest ← expect ':' rest
      let (_, rest) ← twoDigits 0 59 rest
      return rest
    else some cs

/-- Takes what follows a date: a time after a `T` or a space, and its offset. A date may also stand
alone. -/
def afterDate (cs : List Char) : Option (List Char) :=
  match cs with
  | [] => some []
  | c :: rest =>
    if c = 'T' ∨ c = 't' ∨ c = ' ' then
      match timeOfDay rest with
      | some next => timeOffset next
      | none => some cs
    else some cs

/-- Takes a date, a time or both. -/
def momentLiteral (cs : List Char) : Option (List Char) :=
  match date cs with
  | some rest => afterDate rest
  | none => timeOfDay cs

end DebugBridge.Toml
